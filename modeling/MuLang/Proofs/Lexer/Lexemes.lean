import MuLang.Proofs.Lexer.Forms

/-!
# How lexemes are written

What a stretch of a source text says follows from its characters alone: a reserved word or another
name, a number and its suffix, a text or a character between quotes, or a symbol. A rule that takes
the whole of a stretch makes just that of it, and so a stretch says one thing at most.
-/
namespace MuLang

open Lexer

/-- A stretch of text and what it says. The text of a number is without its suffix, and that of a
literal in quotes is what stands between them, with its escapes resolved. -/
inductive Lexeme.WrittenAs : Lexeme → List Char → Prop
  | reserved {word : String} {kind : Kind} :
      (word, kind) ∈ reserved → WrittenAs ⟨kind, word⟩ word.toList
  | identifier {cs : List Char} : IsWord cs → (∀ entry ∈ reserved, entry.1.toList ≠ cs) →
      WrittenAs ⟨.identifier, String.ofList cs⟩ cs
  | integer {whole : List Char} : IsDigits whole →
      WrittenAs ⟨.literal .integer, String.ofList whole⟩ whole
  | long {whole : List Char} {suffix : Char} : IsDigits whole → suffix ∈ ['l', 'L'] →
      WrittenAs ⟨.literal .long, String.ofList whole⟩ (whole ++ [suffix])
  | double {whole decimals : List Char} : IsDigits whole → IsDigits decimals →
      WrittenAs ⟨.literal .double, String.ofList (whole ++ '.' :: decimals)⟩
        (whole ++ '.' :: decimals)
  | float {whole decimals : List Char} {suffix : Char} : IsDigits whole → IsDigits decimals →
      suffix ∈ ['f', 'F'] →
      WrittenAs ⟨.literal .float, String.ofList (whole ++ '.' :: decimals)⟩
        (whole ++ '.' :: decimals ++ [suffix])
  | text {body : List Char} : IsBody '"' body →
      WrittenAs ⟨.literal .string, String.ofList (unescape body)⟩ ('"' :: body ++ ['"'])
  | character {body : List Char} : IsUnit '\'' body →
      WrittenAs ⟨.literal .char, String.ofList (unescape body)⟩ ('\'' :: body ++ ['\''])
  | symbol {spelling : List Char} {kind : Kind} : (spelling, kind) ∈ symbols →
      WrittenAs ⟨kind, String.ofList spelling⟩ spelling

variable {cs : List Char} {lexeme other : Lexeme} {rule : Rule}

/-! ## Reserved words -/

theorem wordKind_of_mem_reserved : ∀ entry ∈ reserved, wordKind entry.1 = entry.2 := by
  decide

theorem wordLength_of_mem_reserved :
    ∀ entry ∈ reserved, entry.1.toList ≠ [] ∧
      wordLength entry.1.toList = entry.1.toList.length := by
  decide

theorem isWord_of_mem_reserved {entry : String × Kind} (h : entry ∈ reserved) :
    IsWord entry.1.toList :=
  isWord_of_wordLength (wordLength_of_mem_reserved entry h).1 (wordLength_of_mem_reserved entry h).2

theorem wordKind_of_forall {word : String} (h : ∀ entry ∈ reserved, entry.1 ≠ word) :
    wordKind word = .identifier := by
  have hnone : reserved.lookup word = none :=
    List.lookup_eq_none_iff.2 fun entry he => bne_iff_ne.2 (h entry he).symm
  rw [wordKind, hnone]
  rfl

theorem writtenAs_word (h : IsWord cs) :
    Lexeme.WrittenAs ⟨wordKind (String.ofList cs), String.ofList cs⟩ cs := by
  by_cases hr : ∃ entry ∈ reserved, entry.1.toList = cs
  · obtain ⟨⟨word, kind⟩, hmem, rfl⟩ := hr
    rw [String.ofList_toList, wordKind_of_mem_reserved _ hmem]
    exact .reserved hmem
  · have hfree : ∀ entry ∈ reserved, entry.1.toList ≠ cs := fun entry he hcs => hr ⟨entry, he, hcs⟩
    rw [wordKind_of_forall fun entry he hword => hfree entry he (by rw [hword, String.toList_ofList])]
    exact .identifier h hfree

/-! ## Rules and forms -/

theorem writtenAs_number {number : Numeral} (h : numberLexeme number.chars = .ok lexeme) :
    lexeme.WrittenAs number.chars := by
  rw [number.numberLexeme_eq] at h
  obtain ⟨whole, decimals, suffix, hw, hd, hs⟩ := number
  cases suffix with
  | none =>
    cases h
    rw [Numeral.chars, Option.toList_none, List.append_nil]
    cases decimals with
    | none =>
      rw [Numeral.value, Numeral.fraction, Option.elim_none, List.append_nil]
      exact .integer hw
    | some digits => exact .double hw (hd digits rfl)
  | some c =>
    dsimp only at h
    split at h
    next hf =>
      cases h
      obtain ⟨digits, rfl⟩ := Option.isSome_iff_exists.1 hf.2
      exact .float hw (hd digits rfl) (by simpa using hf.1)
    · split at h
      next hl =>
        cases h
        cases decimals with
        | none =>
          rw [Numeral.chars, Numeral.value, Numeral.fraction, Option.elim_none, List.append_nil]
          exact .long hw (by simpa using hl.1)
        | some digits => simp at hl
      · cases h

theorem unquoted_eq (quote : Char) (body : List Char) :
    unquoted (quote :: body ++ [quote]) = String.ofList (unescape body) := by
  simp [unquoted]

namespace Rule

theorem writtenAs_of_lexeme? (hr : rule ∈ all) (h : rule.length? cs = some cs.length)
    (hl : rule.lexeme? cs = .ok (some lexeme)) : lexeme.WrittenAs cs := by
  have hne : cs ≠ [] := by
    rintro rfl
    rw [length?_nil] at h
    cases h
  cases rule with
  | blank => cases hl
  | comment => cases hl
  | word =>
    cases hl
    exact writtenAs_word (isWord_of_wordLength hne (positive_eq_some_iff.1 h).1)
  | number =>
    obtain ⟨number, rfl⟩ := exists_numeral hne (positive_eq_some_iff.1 h).1
    rw [lexeme?] at hl
    cases hnumber : numberLexeme number.chars with
    | error cause =>
      rw [hnumber] at hl
      cases hl
    | ok value =>
      rw [hnumber] at hl
      cases hl
      exact writtenAs_number hnumber
  | text =>
    obtain ⟨body, rfl, hb⟩ := textLength_eq_length.1 h
    cases hl
    rw [unquoted_eq]
    exact .text hb
  | character =>
    obtain ⟨body, rfl, hb⟩ := characterLength_eq_length.1 h
    cases hl
    rw [unquoted_eq]
    exact .character hb
  | symbol spelling kind =>
    cases hl
    obtain ⟨hp, hlength⟩ : spelling.isPrefixOf cs ∧ positive spelling.length = some cs.length := by
      simpa [length?] using h
    have hcs : spelling = cs := (List.isPrefixOf_iff_prefix.1 hp).eq_of_length
      (positive_eq_some_iff.1 hlength).1
    rw [← hcs]
    exact .symbol (mem_all_symbol.1 hr)

theorem length?_number (number : Numeral) :
    Rule.number.length? number.chars = some number.chars.length := by
  refine positive_eq_some_iff.2 ⟨number.numberLength_eq, fun h0 => number.value_ne_nil ?_⟩
  exact (List.append_eq_nil_iff.1 (List.eq_nil_of_length_eq_zero h0)).1

theorem length?_word (h : IsWord cs) : Rule.word.length? cs = some cs.length := by
  refine positive_eq_some_iff.2 ⟨h.wordLength_eq, fun h0 => ?_⟩
  cases List.eq_nil_of_length_eq_zero h0
  exact h.ne_nil rfl

theorem length?_symbol {spelling : List Char} {kind : Kind} (h : (spelling, kind) ∈ symbols) :
    (Rule.symbol spelling kind).length? spelling = some spelling.length := by
  rw [length?, if_pos (by simp)]
  refine positive_eq_some_iff.2 ⟨rfl, fun h0 => ?_⟩
  exact symbols_ne_nil _ h (List.eq_nil_of_length_eq_zero h0)

theorem exists_of_number (number : Numeral) (hcs : number.chars = cs)
    (h : numberLexeme number.chars = .ok lexeme) : ∃ rule ∈ Rule.all,
      rule.length? cs = some cs.length ∧ rule.lexeme? cs = .ok (some lexeme) := by
  subst hcs
  refine ⟨.number, by simp [Rule.all], length?_number number, ?_⟩
  rw [lexeme?, h]
  rfl

end Rule

namespace Lexeme

/-- What is written as a stretch of text is made of it by the rule that takes the whole of it. -/
theorem WrittenAs.exists_rule (h : lexeme.WrittenAs cs) : ∃ rule ∈ Rule.all,
    rule.length? cs = some cs.length ∧ rule.lexeme? cs = .ok (some lexeme) := by
  cases h with
  | @reserved word kind hmem =>
    refine ⟨.word, by simp [Rule.all], Rule.length?_word (isWord_of_mem_reserved hmem), ?_⟩
    rw [Rule.lexeme?, String.ofList_toList, wordKind_of_mem_reserved _ hmem]
  | identifier hword hfree =>
    refine ⟨.word, by simp [Rule.all], Rule.length?_word hword, ?_⟩
    rw [Rule.lexeme?, wordKind_of_forall fun entry he hentry => hfree entry he ?_]
    rw [hentry, String.toList_ofList]
  | integer hw =>
    refine Rule.exists_of_number ⟨cs, none, none, hw, by simp, by simp⟩ ?_ ?_
    · simp [Numeral.chars, Numeral.value, Numeral.fraction]
    · rw [Numeral.numberLexeme_eq]
      simp [Numeral.value, Numeral.fraction]
  | @long whole suffix hw hs =>
    have hl : ∀ c ∈ some suffix, isLetter c := by
      rintro _ ⟨⟩
      obtain rfl | rfl : suffix = 'l' ∨ suffix = 'L' := by simpa using hs
      · rfl
      · rfl
    refine Rule.exists_of_number ⟨whole, none, some suffix, hw, by simp, hl⟩ ?_ ?_
    · simp [Numeral.chars, Numeral.value, Numeral.fraction]
    · have hsuffix : suffix = 'l' ∨ suffix = 'L' := by simpa using hs
      rw [Numeral.numberLexeme_eq]
      simp [Numeral.value, Numeral.fraction, hsuffix]
  | @double whole decimals hw hd =>
    refine Rule.exists_of_number ⟨whole, some decimals, none, hw, by simp [hd], by simp⟩ ?_ ?_
    · simp [Numeral.chars, Numeral.value, Numeral.fraction]
    · rw [Numeral.numberLexeme_eq]
      rfl
  | @float whole decimals suffix hw hd hs =>
    have hl : ∀ c ∈ some suffix, isLetter c := by
      rintro _ ⟨⟩
      obtain rfl | rfl : suffix = 'f' ∨ suffix = 'F' := by simpa using hs
      · rfl
      · rfl
    refine Rule.exists_of_number ⟨whole, some decimals, some suffix, hw, by simp [hd], hl⟩ ?_ ?_
    · simp [Numeral.chars, Numeral.value, Numeral.fraction]
    · have hsuffix : suffix = 'f' ∨ suffix = 'F' := by simpa using hs
      rw [Numeral.numberLexeme_eq]
      simp [Numeral.value, Numeral.fraction, hsuffix]
  | text hb =>
    refine ⟨.text, by simp [Rule.all], textLength_eq_length.2 ⟨_, rfl, hb⟩, ?_⟩
    rw [Rule.lexeme?, unquoted_eq]
  | character hb =>
    refine ⟨.character, by simp [Rule.all], characterLength_eq_length.2 ⟨_, rfl, hb⟩, ?_⟩
    rw [Rule.lexeme?, unquoted_eq]
  | symbol hmem => exact ⟨.symbol _ _, Rule.mem_all_symbol.2 hmem, Rule.length?_symbol hmem, rfl⟩

/-- A stretch of text says one thing at most. -/
theorem WrittenAs.unique (h : lexeme.WrittenAs cs) (hother : other.WrittenAs cs) :
    lexeme = other := by
  obtain ⟨rule, hr, hlength, hl⟩ := h.exists_rule
  obtain ⟨rule', hr', hlength', hl'⟩ := hother.exists_rule
  have hfirst := (Rule.first?_of_whole hr hlength).symm.trans (Rule.first?_of_whole hr' hlength')
  cases hfirst
  cases hl.symm.trans hl'
  rfl

end Lexeme

end MuLang
