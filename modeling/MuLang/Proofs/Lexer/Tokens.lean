import MuLang.Proofs.Lexer.Scan

/-!
# The tokens of a source text

The tokens of a text stand in it one after the other, up to the one for its end. Between them there
are blanks and comments only, and each says what is written where it stands. Wherever a rule is
chosen, no other one takes more.
-/
namespace MuLang

open Lexer

/-- The stretches between tokens, as byte offsets, from a first offset on. -/
def Token.gaps (offset : Nat) : List Token → List (Nat × Nat)
  | [] => []
  | token :: rest => (offset, token.span.start.offset) :: gaps token.span.stop.offset rest

/-- A slice stands in a text from one byte offset to another, and the text goes on `after` it. -/
def Lexer.Stretch (cs : List Char) (start stop : Nat) (slice after : List Char) : Prop :=
  ∃ before, cs = before ++ (slice ++ after) ∧ start = byteCount before ∧
    stop = byteCount (before ++ slice)

/-- The tokens of a source text. -/
structure Tokenized (source file : String) (tokens : List Token) : Prop where
  ordered : tokens.Pairwise fun earlier later => earlier.span.stop.offset ≤ later.span.start.offset
  bounded : ∀ token ∈ tokens, token.span.start.file = file ∧ token.span.stop.file = file ∧
    token.span.start.offset ≤ token.span.stop.offset ∧ token.span.stop.offset ≤ source.utf8ByteSize
  separated : ∀ gap ∈ Token.gaps 0 tokens, ∃ slice after,
    Stretch source.toList gap.1 gap.2 slice after ∧ Skipped after slice
  written : ∀ token ∈ tokens, token.kind ≠ .endOfFile → ∃ slice after rule, slice ≠ [] ∧
    Stretch source.toList token.span.start.offset token.span.stop.offset slice after ∧
    Rule.first? (slice ++ after) Rule.all = some (rule, slice.length) ∧
    ∀ lexeme : Lexeme, lexeme.WrittenAs slice ↔ lexeme = token.toLexeme
  ended : ∃ words, tokens = words ++ [endOfFile file source.utf8ByteSize] ∧
    ∀ word ∈ words, word.kind ≠ .endOfFile

theorem Lexeme.WrittenAs.kind_ne {lexeme : Lexeme} {cs : List Char} (h : lexeme.WrittenAs cs) :
    lexeme.kind ≠ .endOfFile := by
  have hreserved : ∀ entry ∈ MuLang.reserved, entry.2 ≠ .endOfFile := by decide
  have hsymbols : ∀ entry ∈ symbols, entry.2 ≠ .endOfFile := by decide
  cases h with
  | reserved h => exact hreserved _ h
  | symbol h => exact hsymbols _ h
  | _ => exact Kind.noConfusion

namespace Lexer

variable {file : String} {offset : Nat} {cs slice rest : List Char} {rule : Rule} {lexeme : Lexeme}
  {tokens : List Token}

/-- The chosen rule makes the lexeme that is written as what it takes. -/
theorem writtenAs_of_first? (h : Rule.first? (slice ++ rest) Rule.all = some (rule, slice.length))
    (hl : rule.lexeme? slice = .ok (some lexeme)) : lexeme.WrittenAs slice := by
  obtain ⟨hr, hlength, -⟩ := Rule.first?_all.1 (Rule.first?_of_append h (Nat.le_refl _))
  exact Rule.writtenAs_of_lexeme? hr hlength hl

namespace Reads

theorem bounded (h : Reads file offset cs tokens) : ∀ token ∈ tokens,
    token.span.start.file = file ∧ token.span.stop.file = file ∧ offset ≤ token.span.start.offset ∧
      token.span.start.offset ≤ token.span.stop.offset ∧
      token.span.stop.offset ≤ offset + byteCount cs := by
  induction h with
  | finish => simp [endOfFile]
  | skip _ _ _ _ ih =>
    intro token ht
    obtain ⟨hstart, hstop, hlow, hle, hhigh⟩ := ih token ht
    rw [byteCount_append]
    exact ⟨hstart, hstop, by omega, hle, by omega⟩
  | token _ _ _ _ ih =>
    rw [List.forall_mem_cons]
    refine ⟨⟨rfl, rfl, Nat.le_refl _, Nat.le_add_right _ _, ?_⟩, fun token ht => ?_⟩
    · simp [tokenAt]
    · obtain ⟨hstart, hstop, hlow, hle, hhigh⟩ := ih token ht
      rw [byteCount_append]
      exact ⟨hstart, hstop, by omega, hle, by omega⟩

theorem ordered (h : Reads file offset cs tokens) :
    tokens.Pairwise fun earlier later => earlier.span.stop.offset ≤ later.span.start.offset := by
  induction h with
  | finish => exact List.pairwise_singleton _ _
  | skip _ _ _ _ ih => exact ih
  | token _ _ _ hrest ih =>
    exact List.pairwise_cons.2 ⟨fun later hl => (hrest.bounded later hl).2.2.1, ih⟩

theorem ended (h : Reads file offset cs tokens) :
    ∃ words, tokens = words ++ [endOfFile file (offset + byteCount cs)] ∧
      ∀ word ∈ words, word.kind ≠ .endOfFile := by
  induction h with
  | finish => exact ⟨[], rfl, by simp⟩
  | skip _ _ _ _ ih =>
    obtain ⟨words, rfl, hwords⟩ := ih
    exact ⟨words, by rw [byteCount_append, Nat.add_assoc], hwords⟩
  | token _ hfirst hlexeme _ ih =>
    obtain ⟨words, rfl, hwords⟩ := ih
    refine ⟨_ :: words, by rw [byteCount_append, Nat.add_assoc]; rfl, ?_⟩
    exact List.forall_mem_cons.2 ⟨(writtenAs_of_first? hfirst hlexeme).kind_ne, hwords⟩

/-- Every token but the last one says what is written where it stands, by the rule that is chosen
there. -/
theorem written (h : Reads file offset cs tokens) (passed : List Char)
    (hp : byteCount passed = offset) : ∀ token ∈ tokens, token.kind ≠ .endOfFile → ∃ slice after rule, slice ≠ [] ∧
      Stretch (passed ++ cs) token.span.start.offset token.span.stop.offset slice after ∧
      Rule.first? (slice ++ after) Rule.all = some (rule, slice.length) ∧
      ∀ lexeme : Lexeme, lexeme.WrittenAs slice ↔ lexeme = token.toLexeme := by
  induction h generalizing passed with
  | finish => simp [endOfFile]
  | @skip offset slice rest rule tokens hfirst hskip _ ih =>
    rw [← List.append_assoc]
    exact ih _ (by rw [byteCount_append, hp])
  | @token offset slice rest rule lexeme tokens hfirst hlexeme _ ih =>
    rw [List.forall_mem_cons]
    refine ⟨fun _ => ?_, ?_⟩
    · have hwritten := writtenAs_of_first? hfirst hlexeme
      refine ⟨slice, rest, rule, List.ne_nil_of_length_pos (Rule.first?_pos hfirst),
        ⟨passed, rfl, hp.symm, ?_⟩, hfirst, fun other => ⟨fun ho => ho.unique hwritten, ?_⟩⟩
      · rw [byteCount_append, hp]
        rfl
      · rintro rfl
        exact hwritten
    · rw [← List.append_assoc]
      exact ih _ (by rw [byteCount_append, hp])

/-- Between tokens there is only what is skipped. -/
theorem separated (h : Reads file offset cs tokens) (passed : List Char)
    (hp : byteCount passed = offset) : ∀ gap ∈ Token.gaps offset tokens, ∃ slice after,
      Stretch (passed ++ cs) gap.1 gap.2 slice after ∧ Skipped after slice := by
  induction h generalizing passed with
  | finish =>
    simp only [Token.gaps, List.mem_singleton]
    rintro _ rfl
    exact ⟨[], [], ⟨passed, rfl, hp.symm, by simp [hp, endOfFile]⟩, .nil⟩
  | @skip offset slice rest rule tokens hfirst hskip hrest ih =>
    have hp' : byteCount (passed ++ slice) = offset + byteCount slice := by
      rw [byteCount_append, hp]
    obtain ⟨token, others, rfl⟩ : ∃ token others, tokens = token :: others := by
      obtain ⟨words, rfl, -⟩ := hrest.ended
      exact List.exists_cons_of_ne_nil (by simp)
    have hgaps := ih _ hp'
    rw [Token.gaps, List.forall_mem_cons, List.append_assoc] at hgaps
    obtain ⟨⟨gap, after, ⟨before, hbefore, hstart, hstop⟩, hgap⟩, hothers⟩ := hgaps
    rw [Token.gaps, List.forall_mem_cons]
    refine ⟨?_, hothers⟩
    -- What is skipped here is skipped together with what follows it up to the next token.
    rw [← List.append_assoc] at hbefore
    cases eq_of_byteCount_eq hbefore (hp'.trans hstart)
    cases List.append_cancel_left hbefore
    obtain ⟨hr, hlength, -⟩ := Rule.first?_all.1 hfirst
    refine ⟨slice ++ gap, after, ⟨passed, by rw [List.append_assoc], hp.symm, ?_⟩,
      hgap.append hr hlength hskip⟩
    rw [hstop, List.append_assoc]
  | @token offset slice rest rule lexeme tokens hfirst hlexeme _ ih =>
    rw [Token.gaps, List.forall_mem_cons]
    refine ⟨⟨[], slice ++ rest, ⟨passed, rfl, hp.symm, by simp [hp, tokenAt]⟩, .nil⟩, ?_⟩
    rw [← List.append_assoc]
    exact ih _ (by rw [byteCount_append, hp])

end Reads

end Lexer

/-- The tokens that are read of a source text stand in it in order, with blanks and comments between
them, and each is what its own characters say. Wherever a rule is chosen, its match is that of its
pattern, and the pattern of no other rule matches more. -/
theorem tokenized_of_tokenize {source file : String} {tokens : List Token}
    (h : tokenize source file = .ok tokens) : Tokenized source file tokens ∧
      ∀ cs rule n, Rule.first? cs Rule.all = some (rule, n) → rule.pattern.first? cs = some n ∧
        ∀ other ∈ Rule.all, ∀ m, other.pattern.first? cs = some m → m ≤ n := by
  have hreads : Reads file 0 source.toList tokens := reads_of_scan h
  have hbytes : 0 + byteCount source.toList = source.utf8ByteSize := by
    rw [Nat.zero_add, byteCount_toList]
  refine ⟨⟨hreads.ordered, fun token ht => ?_, hreads.separated [] rfl,
    hreads.written [] rfl, ?_⟩, fun cs rule n hfirst => ?_⟩
  · obtain ⟨hstart, hstop, -, hle, hhigh⟩ := hreads.bounded token ht
    exact ⟨hstart, hstop, hle, hbytes ▸ hhigh⟩
  · exact hbytes ▸ hreads.ended
  · obtain ⟨hr, hn, hmax⟩ := Rule.first?_all.1 hfirst
    refine ⟨(Rule.length?_eq_first? hr cs).symm.trans hn, fun other ho m hm => ?_⟩
    exact hmax other ho m ((Rule.length?_eq_first? ho cs).trans hm)

/-- A suffix, a comment with a character of two bytes, and an escape. -/
theorem tokenized_literals : ∃ tokens, tokenize "1L<<= // é\n\"a\\n\"" "m" = .ok tokens ∧
    tokens.map (fun token => (token.text, token.span.start.offset, token.span.stop.offset)) =
      [("1", 0, 2), ("<<=", 2, 5), ("a\n", 12, 17), ("EOF", 17, 17)] ∧
    Tokenized "1L<<= // é\n\"a\\n\"" "m" tokens ∧
    ∀ other ∈ Rule.all, ∀ m, other.pattern.first? ['<', '<', '=', ' '] = some m → m ≤ 3 := by
  have hreads : Reads "m" 0 "1L<<= // é\n\"a\\n\"".toList _ :=
    .token ['1', 'L'] rfl rfl <| .token ['<', '<', '='] rfl rfl <| .skip [' '] rfl rfl <|
      .skip ['/', '/', ' ', 'é'] rfl rfl <| .skip ['\n'] rfl rfl <|
      .token ['"', 'a', '\\', 'n', '"'] rfl rfl .finish
  have htokens := tokenized_of_tokenize hreads.scan_eq
  exact ⟨_, hreads.scan_eq, rfl, htokens.1, (htokens.2 ['<', '<', '=', ' '] _ 3 rfl).2⟩

end MuLang
