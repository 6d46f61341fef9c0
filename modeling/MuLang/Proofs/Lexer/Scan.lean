import MuLang.Proofs.Lexer.Lexemes

/-!
# Reading a text step by step

Each step of reading takes what the chosen rule takes, and makes a token of it or skips it. A text
that has tokens is read by such steps up to its end, and only blanks and comments are skipped on the
way.
-/
namespace MuLang

open Lexer

/-! ## Bytes -/

namespace Lexer

@[simp] theorem byteCount_append (first second : List Char) :
    byteCount (first ++ second) = byteCount first + byteCount second := by
  induction first with
  | nil => simp [byteCount]
  | cons c first ih => simp [byteCount, ih, Nat.add_assoc]

theorem byteCount_eq_zero {cs : List Char} (h : byteCount cs = 0) : cs = [] := by
  cases cs with
  | nil => rfl
  | cons c cs =>
    have hc := c.utf8Size_pos
    rw [byteCount] at h
    omega

/-- Two beginnings of a text with as many bytes are the same. -/
theorem eq_of_byteCount_eq {first second rest more : List Char} (h : first ++ rest = second ++ more)
    (hb : byteCount first = byteCount second) : first = second := by
  obtain ⟨part, rfl, -⟩ | ⟨part, rfl, -⟩ := List.append_eq_append_iff.1 h
  · have hpart : byteCount part = 0 := by
      rw [byteCount_append] at hb
      omega
    rw [byteCount_eq_zero hpart, List.append_nil]
  · have hpart : byteCount part = 0 := by
      rw [byteCount_append] at hb
      omega
    rw [byteCount_eq_zero hpart, List.append_nil]

theorem byteCount_eq_utf8ByteSize (cs : List Char) :
    byteCount cs = (String.ofList cs).utf8ByteSize := by
  induction cs with
  | nil => rfl
  | cons c cs ih =>
    rw [String.ofList_cons, String.utf8ByteSize_append, String.utf8ByteSize_singleton, byteCount,
      ih]

theorem byteCount_toList (text : String) : byteCount text.toList = text.utf8ByteSize := by
  rw [byteCount_eq_utf8ByteSize, String.ofList_toList]

/-! ## Steps -/

/-- The token for the end of a file. -/
def endOfFile (file : String) (offset : Nat) : Token :=
  ⟨⟨.endOfFile, "EOF"⟩, ⟨⟨offset, file⟩, ⟨offset, file⟩⟩⟩

/-- A token that a stretch of text makes. -/
def tokenAt (file : String) (offset : Nat) (slice : List Char) (lexeme : Lexeme) : Token :=
  ⟨lexeme, ⟨⟨offset, file⟩, ⟨offset + byteCount slice, file⟩⟩⟩

variable {file : String} {offset : Nat} {cs slice rest : List Char} {rule : Rule} {lexeme : Lexeme}
  {tokens : List Token}

/-- One step of reading: what the chosen rule takes, and then the rest. -/
theorem scan_append (h : Rule.first? (slice ++ rest) Rule.all = some (rule, slice.length)) :
    scan file offset (slice ++ rest) = match rule.lexeme? slice with
      | .error cause => .error ⟨cause, ⟨offset, file⟩, []⟩
      | .ok none => scan file (offset + byteCount slice) rest
      | .ok (some lexeme) =>
        (scan file (offset + byteCount slice) rest).map (tokenAt file offset slice lexeme :: ·) := by
  obtain ⟨c, part, rfl⟩ := List.exists_cons_of_length_pos (Rule.first?_pos h)
  rw [List.cons_append] at h ⊢
  rw [scan.eq_def]
  dsimp only
  split
  next hnone =>
    rw [h] at hnone
    cases hnone
  next chosen length hchosen =>
    rw [h] at hchosen
    cases hchosen
    rw [← List.cons_append]
    simp only [List.take_left, List.drop_left]
    rfl

/-- Where no rule matches there is no token. -/
theorem scan_of_none {c : Char} (h : Rule.first? (c :: cs) Rule.all = none) :
    scan file offset (c :: cs) =
      .error ⟨.unrecognisedToken (String.ofList [c]), ⟨offset, file⟩, []⟩ := by
  rw [scan.eq_def]
  dsimp only
  split
  · rfl
  next hchosen =>
    rw [h] at hchosen
    cases hchosen

/-- Reading a text that starts at a byte offset, step by step. -/
inductive Reads (file : String) : Nat → List Char → List Token → Prop
  | finish {offset : Nat} : Reads file offset [] [endOfFile file offset]
  | skip {offset : Nat} (slice : List Char) {rest : List Char} {rule : Rule} {tokens : List Token} :
      Rule.first? (slice ++ rest) Rule.all = some (rule, slice.length) →
      rule.lexeme? slice = .ok none → Reads file (offset + byteCount slice) rest tokens →
      Reads file offset (slice ++ rest) tokens
  | token {offset : Nat} (slice : List Char) {rest : List Char} {rule : Rule} {lexeme : Lexeme}
      {tokens : List Token} :
      Rule.first? (slice ++ rest) Rule.all = some (rule, slice.length) →
      rule.lexeme? slice = .ok (some lexeme) → Reads file (offset + byteCount slice) rest tokens →
      Reads file offset (slice ++ rest) (tokenAt file offset slice lexeme :: tokens)

/-- A text is what the chosen rule takes and the rest. -/
theorem exists_slice {n : Nat} (h : Rule.first? cs Rule.all = some (rule, n)) :
    ∃ slice rest, cs = slice ++ rest ∧ slice.length = n ∧ rest.length < cs.length := by
  obtain ⟨hr, hn, -⟩ := Rule.first?_all.1 h
  have hle := Rule.length?_le hr hn
  have hpos := Rule.first?_pos h
  refine ⟨cs.take n, cs.drop n, (List.take_append_drop n cs).symm, List.length_take_of_le hle, ?_⟩
  rw [List.length_drop]
  omega

theorem reads_of_scan (h : scan file offset cs = .ok tokens) : Reads file offset cs tokens := by
  induction hl : cs.length using Nat.strongRecOn generalizing cs offset tokens with
  | ind length ih =>
    subst hl
    cases hfirst : Rule.first? cs Rule.all with
    | none =>
      cases cs with
      | nil =>
        rw [scan.eq_def] at h
        cases h
        exact .finish
      | cons c cs =>
        rw [scan_of_none hfirst] at h
        cases h
    | some chosen =>
      obtain ⟨rule, n⟩ := chosen
      obtain ⟨slice, rest, rfl, rfl, hlt⟩ := exists_slice hfirst
      rw [scan_append hfirst] at h
      split at h
      next => cases h
      next hskip => exact .skip _ hfirst hskip (ih _ hlt h rfl)
      next lexeme hlexeme =>
        cases hrest : scan file (offset + byteCount slice) rest with
        | error error =>
          rw [hrest] at h
          cases h
        | ok others =>
          rw [hrest] at h
          cases h
          exact .token _ hfirst hlexeme (ih _ hlt hrest rfl)

theorem Reads.scan_eq (h : Reads file offset cs tokens) : scan file offset cs = .ok tokens := by
  induction h with
  | finish =>
    rw [scan.eq_def]
    rfl
  | skip _ hfirst hskip _ ih => rw [scan_append hfirst, hskip, ih]
  | token _ hfirst hlexeme _ ih =>
    rw [scan_append hfirst, hlexeme, ih]
    rfl

/-- A text that is one lexeme has just that and its end for tokens. -/
theorem reads_of_writtenAs (h : lexeme.WrittenAs cs) :
    Reads file offset cs
      [tokenAt file offset cs lexeme, endOfFile file (offset + byteCount cs)] := by
  obtain ⟨rule, hr, hlength, hlexeme⟩ := h.exists_rule
  have hfirst : Rule.first? (cs ++ []) Rule.all = some (rule, cs.length) := by
    rw [List.append_nil]
    exact Rule.first?_of_whole hr hlength
  have hreads : Reads file offset (cs ++ []) _ := .token cs hfirst hlexeme .finish
  rwa [List.append_nil] at hreads

/-! ## What is skipped -/

/-- Blanks, and comments that end with their line. The text goes on `after` it. -/
inductive Skipped (after : List Char) : List Char → Prop
  | nil : Skipped after []
  | blank {c : Char} {rest : List Char} :
      Text.isBlank c → Skipped after rest → Skipped after (c :: rest)
  | comment {body rest : List Char} : '\n' ∉ body → (∀ c ∈ (rest ++ after).head?, c = '\n') →
      Skipped after rest → Skipped after ('/' :: '/' :: (body ++ rest))

theorem Skipped.append_blanks {after gap : List Char} (h : Skipped after gap)
    (hs : ∀ c ∈ slice, Text.isBlank c) : Skipped after (slice ++ gap) := by
  induction slice with
  | nil => exact h
  | cons c slice ih =>
    rw [List.forall_mem_cons] at hs
    exact .blank hs.1 (ih hs.2)

/-- What a run of characters takes is all of one class, and the next character is not. -/
theorem of_length_takeWhile {p : Char → Bool}
    (h : ((slice ++ rest).takeWhile p).length = slice.length) :
    (∀ c ∈ slice, p c) ∧ ∀ c ∈ rest.head?, p c = false := by
  have htake : (slice ++ rest).takeWhile p = slice :=
    List.append_inj_left (List.takeWhile_append_dropWhile (p := p) (l := slice ++ rest)) h
  have hslice : ∀ c ∈ slice, p c := by
    intro c hc
    rw [← htake] at hc
    exact List.all_eq_true.1 List.all_takeWhile c hc
  refine ⟨hslice, ?_⟩
  rw [List.takeWhile_append_of_pos hslice] at htake
  have hrest : rest.takeWhile p = [] :=
    List.append_cancel_left (htake.trans (List.append_nil slice).symm)
  cases rest with
  | nil => simp
  | cons d rest =>
    rintro _ ⟨⟩
    by_contra hd
    rw [List.takeWhile_cons_of_pos (by simpa using hd)] at hrest
    cases hrest

/-- What is taken as a comment goes up to the end of its line. -/
theorem of_length?_comment (h : Rule.comment.length? (slice ++ rest) = some slice.length) :
    ∃ body, slice = '/' :: '/' :: body ∧ '\n' ∉ body ∧ ∀ c ∈ rest.head?, c = '\n' := by
  simp only [Rule.length?] at h
  split at h
  next tail htail =>
    rcases slice with _ | ⟨c, _ | ⟨d, body⟩⟩
    · simp at h
    · simp at h
      omega
    · cases htail
      have hfeed : ((body ++ rest).takeWhile (· != '\n')).length = body.length := by
        simpa [Nat.add_comm 2] using h
      obtain ⟨hbody, hend⟩ := of_length_takeWhile hfeed
      refine ⟨body, rfl, fun hmem => ?_, fun c hc => by simpa using hend c hc⟩
      exact absurd (hbody _ hmem) (by decide)
  · cases h

/-- A rule that makes no token takes blanks or a comment. -/
theorem Skipped.append {after gap : List Char} (h : Skipped after gap) (hr : rule ∈ Rule.all)
    (hlength : rule.length? (slice ++ (gap ++ after)) = some slice.length)
    (hskip : rule.lexeme? slice = .ok none) : Skipped after (slice ++ gap) := by
  cases rule with
  | blank =>
    exact h.append_blanks (of_length_takeWhile (positive_eq_some_iff.1 hlength).1).1
  | comment =>
    obtain ⟨body, rfl, hbody, hend⟩ := of_length?_comment hlength
    exact .comment hbody hend h
  | word => cases hskip
  | number =>
    rw [Rule.lexeme?] at hskip
    cases hnumber : numberLexeme slice <;> rw [hnumber] at hskip <;> cases hskip
  | text => cases hskip
  | character => cases hskip
  | symbol spelling kind => cases hskip

end Lexer

end MuLang
