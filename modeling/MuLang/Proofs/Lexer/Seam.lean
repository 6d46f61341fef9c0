import MuLang.Proofs.Lexer.Tokens

/-!
# Texts one after the other

A line feed after a text that has tokens parts it from every text that follows: both are read as if
each stood alone. Only blanks go on across the seam, and they make no token.
-/
namespace MuLang

open Lexer

/-! ## Places further on -/

def Position.shift (distance : Nat) (position : Position) : Position :=
  { position with offset := position.offset + distance }

def Span.shift (distance : Nat) (span : Span) : Span :=
  ⟨span.start.shift distance, span.stop.shift distance⟩

/-- The same word, further on. -/
def Token.shift (distance : Nat) (token : Token) : Token :=
  { token with span := token.span.shift distance }

/-- The same error, further on. -/
def Error.shift (distance : Nat) (error : Error) : Error :=
  { error with position := error.position.shift distance }

namespace Lexer

/-- What reading a text gives when the text stands further on. -/
def shiftResult (distance : Nat) : Except Error (List Token) → Except Error (List Token)
  | .ok tokens => .ok (tokens.map (·.shift distance))
  | .error error => .error (error.shift distance)

variable {file : String} {offset : Nat} {cs slice rest : List Char} {rule : Rule} {lexeme : Lexeme}
  {tokens : List Token}

/-- Reading does not depend on where a text stands. -/
theorem scan_shift (distance : Nat) (file : String) (offset : Nat) (cs : List Char) :
    scan file (offset + distance) cs = shiftResult distance (scan file offset cs) := by
  induction hl : cs.length using Nat.strongRecOn generalizing cs offset with
  | ind length ih =>
    subst hl
    cases hfirst : Rule.first? cs Rule.all with
    | none =>
      cases cs with
      | nil =>
        rw [scan.eq_def, scan.eq_def]
        rfl
      | cons c cs =>
        rw [scan_of_none hfirst, scan_of_none hfirst]
        rfl
    | some chosen =>
      obtain ⟨rule, n⟩ := chosen
      obtain ⟨slice, rest, rfl, rfl, hlt⟩ := exists_slice hfirst
      rw [scan_append hfirst, scan_append hfirst]
      cases hl : rule.lexeme? slice with
      | error cause => rfl
      | ok lexeme? =>
        have hnext : offset + distance + byteCount slice = offset + byteCount slice + distance := by
          omega
        cases lexeme? with
        | none =>
          dsimp only
          rw [hnext]
          exact ih _ hlt _ _ rfl
        | some lexeme =>
          dsimp only
          rw [hnext, ih _ hlt _ _ rfl]
          cases scan file (offset + byteCount slice) rest with
          | error error => rfl
          | ok tokens =>
            refine congrArg (fun token => Except.ok (token :: tokens.map (·.shift distance))) ?_
            rw [tokenAt, hnext]
            rfl

/-- A run of blanks is passed over. -/
theorem scan_run (hs : ∀ c ∈ slice, Text.isBlank c)
    (hr : ∀ c ∈ rest.head?, Text.isBlank c = false) :
    scan file offset (slice ++ rest) = scan file (offset + byteCount slice) rest := by
  by_cases hne : slice = []
  · subst hne
    rfl
  have hrest : rest.takeWhile Text.isBlank = [] := by
    cases rest with
    | nil => rfl
    | cons c rest => exact List.takeWhile_cons_of_neg (by simp [hr c rfl])
  have hlength : Rule.blank.length? (slice ++ rest) = some slice.length := by
    rw [Rule.length?, List.takeWhile_append_of_pos hs, hrest, List.append_nil]
    exact positive_eq_some_iff.2 ⟨rfl, fun h0 => hne (List.eq_nil_of_length_eq_zero h0)⟩
  have hfirst := Rule.first?_of_not_sign (by simp [Rule.all]) rfl hlength
  rw [scan_append hfirst]
  rfl

/-- Blanks before a text are passed over, together with those it begins with. -/
theorem scan_blanks (hs : ∀ c ∈ slice, Text.isBlank c) :
    scan file offset (slice ++ rest) = scan file (offset + byteCount slice) rest := by
  have hrun : ∀ c ∈ rest.takeWhile Text.isBlank, Text.isBlank c :=
    fun c hc => List.all_eq_true.1 List.all_takeWhile c hc
  have htail : ∀ c ∈ (rest.dropWhile Text.isBlank).head?, Text.isBlank c = false := by
    intro c hc
    have hhead := List.head?_dropWhile_not Text.isBlank rest
    rw [Option.mem_def] at hc
    rw [hc] at hhead
    simpa using hhead
  have hboth : ∀ c ∈ slice ++ rest.takeWhile Text.isBlank, Text.isBlank c :=
    List.forall_mem_append.2 ⟨hs, hrun⟩
  calc scan file offset (slice ++ rest)
      = scan file offset
          (slice ++ rest.takeWhile Text.isBlank ++ rest.dropWhile Text.isBlank) := by
        rw [List.append_assoc, List.takeWhile_append_dropWhile]
    _ = scan file (offset + byteCount slice + byteCount (rest.takeWhile Text.isBlank))
          (rest.dropWhile Text.isBlank) := by
        rw [scan_run hboth htail, byteCount_append, Nat.add_assoc]
    _ = scan file (offset + byteCount slice) rest := by
        rw [← scan_run hrun htail, List.takeWhile_append_dropWhile]

theorem except_map_append_nil (result : Except Error (List Token)) :
    result.map (([] : List Token) ++ ·) = result := by
  cases result <;> rfl

/-- After a text that has tokens a line feed ends what is read of it. -/
theorem scan_feed {more : List Char} (h : Reads file offset cs tokens) :
    scan file offset (cs ++ '\n' :: more) =
      (scan file (offset + byteCount cs + 1) more).map (tokens.dropLast ++ ·) := by
  induction h with
  | @finish offset =>
    have hfeed : scan file offset (['\n'] ++ more) = scan file (offset + 1) more :=
      scan_blanks (List.forall_mem_singleton.2 rfl)
    exact hfeed.trans (except_map_append_nil _).symm
  | @skip offset slice rest rule tokens hfirst hskip _ ih =>
    rw [List.append_assoc, byteCount_append, ← Nat.add_assoc, ← ih]
    by_cases hb : rule = .blank
    · subst hb
      obtain ⟨-, hlength, -⟩ := Rule.first?_all.1 hfirst
      exact scan_blanks (of_length_takeWhile (positive_eq_some_iff.1 hlength).1).1
    · have hfirst' := Rule.first?_feed more hfirst fun h => absurd h hb
      rw [List.append_assoc] at hfirst'
      rw [scan_append hfirst', hskip]
  | @token offset slice rest rule lexeme tokens hfirst hlexeme hrest ih =>
    have hb : rule ≠ .blank := by
      rintro rfl
      cases hlexeme
    have hfirst' := Rule.first?_feed more hfirst fun h => absurd h hb
    rw [List.append_assoc] at hfirst' ⊢
    rw [scan_append hfirst', hlexeme, byteCount_append, ← Nat.add_assoc]
    dsimp only
    have hne : tokens ≠ [] := by
      obtain ⟨words, rfl, -⟩ := hrest.ended
      simp
    rw [ih, List.dropLast_cons_of_ne_nil hne]
    cases scan file (offset + byteCount slice + byteCount rest + 1) more <;> rfl

end Lexer

/-- A text that has tokens keeps them before a line feed and another text, but for the one for its
end. The tokens or the error of the other text follow, further on by the text and the line feed. -/
theorem tokenize_append {first file : String} {tokens : List Token}
    (h : tokenize first file = .ok tokens) (second : String) :
    ∃ words, tokens = words ++ [endOfFile file first.utf8ByteSize] ∧
      (∀ word ∈ words, word.kind ≠ .endOfFile) ∧
      (∀ others, tokenize second file = .ok others →
        tokenize (first ++ "\n" ++ second) file =
          .ok (words ++ others.map (·.shift (first.utf8ByteSize + 1)))) ∧
      ∀ error, tokenize second file = .error error →
        tokenize (first ++ "\n" ++ second) file =
          .error (error.shift (first.utf8ByteSize + 1)) := by
  have hreads : Reads file 0 first.toList tokens := reads_of_scan h
  obtain ⟨words, rfl, hwords⟩ := hreads.ended
  have hscan : tokenize (first ++ "\n" ++ second) file =
      (shiftResult (first.utf8ByteSize + 1) (tokenize second file)).map (words ++ ·) := by
    have hcs : (first ++ "\n" ++ second).toList = first.toList ++ '\n' :: second.toList := by simp
    rw [tokenize, hcs, scan_feed hreads, List.dropLast_concat, Nat.zero_add, byteCount_toList,
      tokenize, ← scan_shift, Nat.zero_add]
  refine ⟨words, ?_, hwords, fun others ho => ?_, fun error he => ?_⟩
  · rw [Nat.zero_add, byteCount_toList]
  · rw [hscan, ho]
    rfl
  · rw [hscan, he]
    rfl

/-- A comment before the seam ends with it, and what follows is a text or is left open. -/
theorem tokenize_append_comment :
    (∃ tokens, tokenize "x // é\n1" "m" = .ok tokens ∧
      tokens.map (fun token => (token.text, token.span.start.offset, token.span.stop.offset)) =
        [("x", 0, 1), ("1", 8, 9), ("EOF", 9, 9)]) ∧
    tokenize "x // é\n\"" "m" = .error ⟨.unrecognisedToken "\"", ⟨8, "m"⟩, []⟩ := by
  have hfirst : Reads "m" 0 "x // é".toList _ :=
    .token ['x'] rfl rfl <| .skip [' '] rfl rfl <| .skip ['/', '/', ' ', 'é'] rfl rfl .finish
  have hnumber : Reads "m" 0 "1".toList _ := .token ['1'] rfl rfl .finish
  have hquote : tokenize "\"" "m" = .error ⟨.unrecognisedToken "\"", ⟨0, "m"⟩, []⟩ :=
    scan_of_none rfl
  obtain ⟨words, hwords, -, hnumbered, -⟩ := tokenize_append hfirst.scan_eq "1"
  obtain ⟨-, -, -, -, hquoted⟩ := tokenize_append hfirst.scan_eq "\""
  have hone : [_] ++ [_] = words ++ [_] := hwords
  cases List.append_inj_left' hone rfl
  exact ⟨⟨_, hnumbered _ hnumber.scan_eq, rfl⟩, hquoted _ hquote⟩

end MuLang
