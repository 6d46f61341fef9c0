import MuLang.Proofs.Check
import MuLang.Proofs.Lexer.Scan
import MuLang.Proofs.Success

/-!
# Whole numbers as expressions

Which whole numbers have an expression in decimal. The range of a kind of number is asked of the
digits alone. A minus is no part of a literal: it is an operator on what follows it, and so the
least number of a kind is out of reach, since its digits without the minus are out of range.
-/
namespace MuLang

open Lexer

/-- A source text is read as an expression of a type. -/
def Session.ReadsAs (session : Session) (context : Token) (source file : String) (type : Datatype) :
    Prop :=
  ∃ tokens value after, tokenize source file = .ok tokens ∧
    Step.expression tokens.dropLast context session = (.ok value, after) ∧ value.type = type

/-! ## Digits -/

namespace Text

theorem isDigits_decimal (k : Nat) : IsDigits (toString k).toList := by
  rw [Nat.toString_eq_ofList_toDigits, String.toList_ofList]
  exact ⟨Nat.toDigits_ne_nil, fun c hc => Nat.isDigit_of_mem_toDigits (by decide) (by decide) hc⟩

theorem digitValue_of_isDigit {c : Char} (h : c.isDigit) : digitValue c = c.toNat - '0'.toNat := by
  have hle : c ≤ '9' := by
    rw [isDigit_iff] at h
    exact h.2
  rw [digitValue, if_pos hle]

theorem digitsValue_eq_ofDigitChars {digits : List Char} (h : ∀ c ∈ digits, c.isDigit) :
    digitsValue 10 digits = Nat.ofDigitChars 10 digits 0 := by
  rw [digitsValue, Nat.ofDigitChars_eq_foldl]
  refine List.foldl_ext _ _ _ fun value c hc => ?_
  rw [digitValue_of_isDigit (h c hc), Nat.mul_comm]

theorem unsigned_of_isDigits {digits : List Char} (h : IsDigits digits) :
    unsigned digits = digits ∧ digits.head? ≠ some '-' := by
  obtain ⟨c, rest, rfl⟩ := List.exists_cons_of_ne_nil h.1
  have hc : c.isDigit := h.2 c List.mem_cons_self
  have hplus : c ≠ '+' := by
    rintro rfl
    cases hc
  have hminus : c ≠ '-' := by
    rintro rfl
    cases hc
  constructor
  · rw [unsigned]
    · rintro _ ⟨⟩
      exact hplus rfl
    · rintro _ ⟨⟩
      exact hminus rfl
  · simpa using hminus

/-- The digits of a number spell it. -/
theorem integer?_decimal (k : Nat) : integer? (toString k) = some (k : Int) := by
  have hdigits := isDigits_decimal k
  obtain ⟨hunsigned, hhead⟩ := unsigned_of_isDigits hdigits
  have hempty : (toString k).toList.isEmpty = false := List.isEmpty_eq_false_iff.2 hdigits.1
  have hall : (toString k).toList.all Char.isDigit := List.all_eq_true.2 hdigits.2
  have hvalue : digitsValue 10 (toString k).toList = k := by
    rw [digitsValue_eq_ofDigitChars hdigits.2, Nat.toString_eq_ofList_toDigits,
      String.toList_ofList, Nat.ofDigitChars_toDigits (by decide) (by decide)]
  rw [integer?, hunsigned, hempty, hall, if_neg (by decide), if_neg hhead, hvalue]

theorem isSignedInteger_decimal (bits k : Nat) :
    isSignedInteger bits (toString k) ↔ k < signedLimit bits := by
  rw [isSignedInteger, integer?_decimal, Option.any_some, fitsSigned, Bool.and_eq_true,
    decide_eq_true_eq, decide_eq_true_eq]
  omega

end Text

/-! ## A minus -/

namespace Rule

/-- A minus before a digit is a symbol of its own. -/
theorem first?_minus {cs : List Char} (h : ∀ c ∈ cs.head?, c.isDigit) :
    first? ('-' :: cs) all = some (.symbol ['-'] (.binary .subtract), 1) := by
  have hr : symbol ['-'] (.binary .subtract) ∈ all := by decide
  have hlength : (symbol ['-'] (.binary .subtract)).length? ('-' :: cs) = some 1 := rfl
  refine first?_all.2 ⟨hr, hlength, fun other ho m hm => ?_⟩
  obtain rfl | ⟨-, hsign⟩ := eq_or_signs hr ho hlength hm
  · exact Nat.le_of_eq (Option.some.inj (hm.symm.trans hlength))
  obtain ⟨⟨after, hmark⟩, -, hsize⟩ := mark_of_length? hsign hm
  cases other with
  | comment => cases hmark
  | symbol spelling kind =>
    rw [hsize (by simp), mark]
    rcases spelling with _ | ⟨c, _ | ⟨d, rest⟩⟩
    · exact Nat.zero_le 1
    · exact Nat.le_refl 1
    · cases hmark
      have hsymbol : ofStart? d = none := ofStart?_of_mem_symbols (mem_all_symbol.1 ho) (by simp)
      have hd : d.isDigit := h d rfl
      simp [ofStart?, hd, isBlank_of_isDigit hd, isNameStart_of_isDigit hd] at hsymbol
  | _ => cases hsign

end Rule

/-! ## Numbers of one kind -/

/-- A kind of literal that is written as digits and a suffix, for the numbers of a signed width. -/
structure Literal.IsWhole (kind : Literal) (suffix : List Char) (bits : Nat) : Prop where
  written : ∀ k : Nat,
    Lexeme.WrittenAs ⟨.literal kind, toString k⟩ ((toString k).toList ++ suffix)
  accepts_eq : ∀ text, kind.accepts text = Text.isSignedInteger bits text
  negated : Datatype.unary .negate kind.datatype = some kind.datatype

theorem Literal.isWhole_integer : Literal.integer.IsWhole [] 32 where
  written k := by
    have hwritten := Lexeme.WrittenAs.integer (Text.isDigits_decimal k)
    rwa [String.ofList_toList, ← List.append_nil (toString k).toList] at hwritten
  accepts_eq _ := rfl
  negated := rfl

theorem Literal.isWhole_long : Literal.long.IsWhole ['L'] 64 where
  written k := by
    have hwritten : Lexeme.WrittenAs _ ((toString k).toList ++ ['L']) :=
      .long (Text.isDigits_decimal k) (by decide)
    rwa [String.ofList_toList] at hwritten
  accepts_eq _ := rfl
  negated := rfl

namespace Session

variable {session : Session} {context : Token} {source file : String} {type : Datatype}
  {kind : Literal} {suffix : List Char} {bits : Nat}

theorem readsAs_iff_of_reads {tokens : List Token} (h : Reads file 0 source.toList tokens) :
    session.ReadsAs context source file type ↔ ∃ value after,
      (Term.ofTokens tokens.dropLast context).check session.env session.scopes =
        (.ok value, after) ∧ value.type = type := by
  rw [ReadsAs, tokenize, h.scan_eq]
  constructor
  · rintro ⟨_, value, after, ⟨⟩, hx, htype⟩
    obtain ⟨scopes, hcheck, -⟩ := Step.expression_eq_ok.1 hx
    exact ⟨value, scopes, hcheck, htype⟩
  · rintro ⟨value, scopes, hcheck, htype⟩
    exact ⟨tokens, value, _, rfl, Step.expression_eq_ok.2 ⟨scopes, hcheck, rfl⟩, htype⟩

/-- Digits are one literal, whose range they are asked for. -/
theorem readsAs_natural (h : kind.IsWhole suffix bits) (k : Nat) :
    session.ReadsAs context (toString k ++ String.ofList suffix) file kind.datatype ↔
      k < Text.signedLimit bits := by
  have hreads : Reads file 0 ((toString k).toList ++ suffix) _ := reads_of_writtenAs (h.written k)
  rw [readsAs_iff_of_reads (by simpa using hreads), ← Text.isSignedInteger_decimal, ← h.accepts_eq]
  constructor
  · rintro ⟨value, after, hcheck, -⟩
    exact (Term.check_literal_eq_ok.1 hcheck).1.1
  · intro hk
    exact ⟨_, _, Term.check_literal_eq_ok.2 ⟨⟨hk, rfl⟩, rfl⟩, rfl⟩

/-- A minus before digits keeps their kind and leaves the range to them. -/
theorem readsAs_negative (h : kind.IsWhole suffix bits) (k : Nat) :
    session.ReadsAs context ("-" ++ toString k ++ String.ofList suffix) file kind.datatype ↔
      k < Text.signedLimit bits := by
  have hdigit : ∀ c ∈ ((toString k).toList ++ suffix).head?, c.isDigit := by
    obtain ⟨d, rest, hcs⟩ := List.exists_cons_of_ne_nil (Text.isDigits_decimal k).1
    rw [hcs]
    rintro _ ⟨⟩
    exact (Text.isDigits_decimal k).2 d (hcs ▸ List.mem_cons_self)
  have hreads : Reads file 0 ('-' :: ((toString k).toList ++ suffix)) _ :=
    .token ['-'] (Rule.first?_minus hdigit) rfl (reads_of_writtenAs (h.written k))
  rw [readsAs_iff_of_reads (by simpa using hreads), ← Text.isSignedInteger_decimal, ← h.accepts_eq]
  constructor
  · rintro ⟨value, after, hcheck, -⟩
    obtain ⟨number, _, hnumber, -⟩ := Term.check_unary_eq_ok.1 hcheck
    exact (Term.check_literal_eq_ok.1 hnumber).1.1
  · intro hk
    exact ⟨_, _, Term.check_unary_eq_ok.2
      ⟨_, _, Term.check_literal_eq_ok.2 ⟨⟨hk, rfl⟩, rfl⟩, h.negated, rfl⟩, rfl⟩

/-- A whole number in decimal is accepted if its digits are in range. -/
theorem readsAs_whole (h : kind.IsWhole suffix bits) (n : Int) :
    session.ReadsAs context (toString n ++ String.ofList suffix) file kind.datatype ↔
      n.natAbs < Text.signedLimit bits := by
  cases n with
  | ofNat k => exact readsAs_natural h k
  | negSucc k => exact readsAs_negative h (k + 1)

theorem readsAs_int (n : Int) : session.ReadsAs context (toString n) file (.plain .int) ↔
    n.natAbs < 2147483648 := by
  have hreads : session.ReadsAs context (toString n ++ String.ofList []) file (.plain .int) ↔ _ :=
    readsAs_whole Literal.isWhole_integer n
  rwa [String.ofList_nil, String.append_empty] at hreads

theorem readsAs_long (n : Int) :
    session.ReadsAs context (toString n ++ "L") file (.plain .long) ↔
      n.natAbs < 9223372036854775808 :=
  readsAs_whole Literal.isWhole_long n

end Session

/-- In decimal the numbers of 32 bits are accepted as `int`, and with the suffix those of 64 bits as
`long`, all but the least one of either width. -/
theorem readsAs_decimal_iff (session : Session) (context : Token) (file : String) (n : Int) :
    (session.ReadsAs context (toString n) file (.plain .int) ↔ -2147483648 < n ∧ n ≤ 2147483647) ∧
    (session.ReadsAs context (toString n ++ "L") file (.plain .long) ↔
      -9223372036854775808 < n ∧ n ≤ 9223372036854775807) := by
  rw [Session.readsAs_int, Session.readsAs_long]
  omega

/-- The least number of 32 bits has no expression in decimal. -/
theorem least_int_refused : ¬((Session.initial {}).ReadsAs (.synthetic .semicolon ";")
    (toString (-2147483648 : Int)) "shell" (.plain .int) ↔
      -2147483648 ≤ (-2147483648 : Int) ∧ (-2147483648 : Int) ≤ 2147483647) := by
  rw [Session.readsAs_int]
  omega

end MuLang
