import MuLang.Proofs.Lexer.Patterns

/-!
# The rules as patterns

Each rule of the lexer matches what a regular expression matches.
-/
namespace MuLang

open Lexer

namespace Pattern

/-- A letter or an underscore, and then digits as well. -/
def name : Pattern := .seq (.one isNameStart) (.many (.one isNamePart))

/-- A point and another name. -/
def member : Pattern := .seq (.one (· == '.')) name

/-- A point and at least one digit. -/
def fraction : Pattern := .seq (.one (· == '.')) (.plus (.one Char.isDigit))

/-- A backslash and any character but a line feed, or a character that is neither a backslash nor
the given quote. -/
def unit (quote : Char) : Pattern :=
  .either (.seq (.one (· == '\\')) (.one (· != '\n'))) (.one fun c => c != quote && c != '\\')

end Pattern

open Pattern in
/-- What a rule matches. -/
def Rule.pattern : Rule → Pattern
  | .blank => plus (one Text.isBlank)
  | .comment => seq (Pattern.literal ['/', '/']) (many (one (· != '\n')))
  | .word => seq name (many member)
  | .number => seq (plus (one Char.isDigit)) (seq (option fraction) (option (one isLetter)))
  | .text => seq (one (· == '"')) (seq (many (unit '"')) (one (· == '"')))
  | .character => seq (one (· == '\'')) (seq (unit '\'') (one (· == '\'')))
  | .symbol spelling _ => Pattern.literal spelling

theorem Lexer.positive_eq_some_iff {length n : Nat} :
    positive length = some n ↔ length = n ∧ n ≠ 0 := by
  unfold positive
  split <;> simp <;> omega

namespace Pattern

variable {cs : List Char}

theorem exists_first?_many (body : Pattern) (cs : List Char) :
    ∃ n, (many body).first? cs = some n := by
  refine Option.ne_none_iff_exists'.1 fun h => ?_
  rw [first?, List.head?_eq_none_iff, ways_many] at h
  simp at h

theorem ways_seq_assoc (first second third : Pattern) :
    (seq (seq first second) third).ways cs = (seq first (seq second third)).ways cs := by
  simp only [ways_seq, List.flatMap_assoc, List.flatMap_map, List.map_flatMap, List.map_map,
    List.drop_drop]
  refine List.flatMap_congr fun n _ => List.flatMap_congr fun m _ => ?_
  refine List.map_congr_left fun k _ => ?_
  exact Nat.add_assoc n m k

theorem first?_member_of_head {c : Char} (hc : c ≠ '.') : member.first? (c :: cs) = none :=
  first?_seq_eq_none (by simp [first?_one, hc])

theorem first?_member_of_start {c : Char} (hc : isNameStart c = false) :
    member.first? ('.' :: c :: cs) = none := by
  simp [member, name, first?, ways_seq, hc]

theorem first?_member {c : Char} (hc : isNameStart c) :
    member.first? ('.' :: c :: cs) = some (1 + (1 + (cs.takeWhile isNamePart).length)) :=
  first?_seq (by simp [first?_one])
    (first?_seq (by simp [first?_one, hc]) (first?_many_one isNamePart cs))

/-- What continues a word is the rest of a name, and then other names after points. -/
theorem first?_wordTail (cs : List Char) :
    (seq (many (one isNamePart)) (many member)).first? cs = some (wordTail cs) := by
  fun_induction wordTail cs with
  | case1 => exact first?_seq (first?_many_one _ _) (first?_many_of_none rfl)
  | case2 c rest hc ih =>
    obtain ⟨m, hm⟩ := exists_first?_many member (rest.drop (rest.takeWhile isNamePart).length)
    have hrest := first?_seq (first?_many_one isNamePart rest) hm
    rw [hrest, Option.some.injEq] at ih
    have hmembers : (many member).first? ('.' :: c :: rest) =
        some (1 + (1 + (rest.takeWhile isNamePart).length) + m) :=
      first?_many_of_some (first?_member hc) (by omega) (by
        rw [show 1 + (1 + (rest.takeWhile isNamePart).length) =
          (rest.takeWhile isNamePart).length + 2 by omega]
        exact hm)
    rw [first?_seq (n := 0) (first?_many_one _ _) hmembers]
    simp only [Option.some.injEq]
    omega
  | case3 c rest hc =>
    exact first?_seq (n := 0) (first?_many_one _ _)
      (first?_many_of_none (first?_member_of_start (by simpa using hc)))
  | case4 c rest hne hc ih =>
    obtain ⟨m, hm⟩ := exists_first?_many member (rest.drop (rest.takeWhile isNamePart).length)
    rw [first?_seq (first?_many_one isNamePart rest) hm, Option.some.injEq] at ih
    rw [first?_seq (n := (rest.takeWhile isNamePart).length + 1) (m := m)
      (by rw [first?_many_one, List.takeWhile_cons_of_pos hc, List.length_cons]) hm, ← ih]
    exact congrArg some (by omega)
  | case5 c rest hne hc =>
    have hmember : member.first? (c :: rest) = none := by
      by_cases hp : c = '.'
      · subst hp
        cases rest with
        | nil => rfl
        | cons d rest => exact absurd rfl (hne d rest rfl)
      · exact first?_member_of_head hp
    refine first?_seq (n := 0) ?_ (first?_many_of_none hmember)
    rw [first?_many_one, List.takeWhile_cons_of_neg hc]
    rfl

theorem first?_fraction (cs : List Char) : fraction.first? cs = positive (fractionLength cs) := by
  unfold fractionLength
  split
  next rest =>
    have hdigits : (plus (one Char.isDigit)).first? rest = positive (digitsLength rest) :=
      first?_plus_one Char.isDigit rest
    by_cases hzero : digitsLength rest = 0
    · rw [if_pos hzero]
      rw [hzero] at hdigits
      simp [fraction, first?, ways_seq, List.head?_eq_none_iff.1 hdigits, positive]
    · rw [positive, if_neg hzero] at hdigits
      rw [if_neg hzero, positive, if_neg (by omega)]
      exact first?_seq (by simp [first?_one]) hdigits
  next hpoint =>
    refine first?_seq_eq_none ?_
    cases cs with
    | nil => rfl
    | cons c cs =>
      have hc : c ≠ '.' := fun h => hpoint cs (h ▸ rfl)
      simp [first?_one, hc]

theorem first?_suffix (cs : List Char) :
    (option (one isLetter)).first? cs = some (suffixLength cs) := by
  rw [first?_option, first?_one]
  cases cs with
  | nil => rfl
  | cons c cs => cases h : isLetter c <;> simp [suffixLength, h]

theorem first?_number (cs : List Char) :
    Rule.number.pattern.first? cs = positive (numberLength cs) := by
  have hwhole : (plus (one Char.isDigit)).first? cs = positive (digitsLength cs) :=
    first?_plus_one Char.isDigit cs
  simp only [numberLength]
  by_cases hzero : digitsLength cs = 0
  · rw [if_pos hzero]
    rw [hzero] at hwhole
    exact first?_seq_eq_none hwhole
  · rw [positive, if_neg hzero] at hwhole
    have hfraction : (option fraction).first? (cs.drop (digitsLength cs)) =
        some (fractionLength (cs.drop (digitsLength cs))) := by
      rw [first?_option, first?_fraction, positive]
      split
      next h => rw [h]; rfl
      next h => rfl
    rw [if_neg hzero, positive, if_neg (by omega), Nat.add_assoc]
    refine first?_seq hwhole (first?_seq hfraction ?_)
    rw [List.drop_drop]
    exact first?_suffix _

section units

variable {quote c : Char}

@[simp] theorem ways_unit_nil : (unit quote).ways [] = [] := rfl

theorem ways_unit_plain (hq : c ≠ quote) (hb : c ≠ '\\') : (unit quote).ways (c :: cs) = [1] := by
  simp [unit, ways, hq, hb]

theorem ways_unit_quote (hq : quote ≠ '\\') : (unit quote).ways (quote :: cs) = [] := by
  simp [unit, ways, hq]

@[simp] theorem ways_unit_backslash : (unit quote).ways ['\\'] = [] := by
  simp [unit, ways]

theorem ways_unit_escape : (unit quote).ways ('\\' :: c :: cs) = if c = '\n' then [] else [2] := by
  by_cases hc : c = '\n' <;> simp [unit, ways, hc]

end units

theorem eq_of_mem_ways_unit {n : Nat} {quote : Char} (h : n ∈ (unit quote).ways cs) :
    (n = 2 ∧ ∃ c rest, cs = '\\' :: c :: rest ∧ c ≠ '\n') ∨
      (n = 1 ∧ ∃ c rest, cs = c :: rest ∧ c ≠ quote ∧ c ≠ '\\') := by
  simp only [unit, mem_ways_either, mem_ways_seq, mem_ways_one] at h
  obtain ⟨_, ⟨rfl, b, rest, rfl, hb⟩, _, ⟨rfl, c, more, hrest, hc⟩, rfl⟩ |
    ⟨rfl, c, rest, rfl, hc⟩ := h
  · cases beq_iff_eq.1 hb
    cases hrest
    exact .inl ⟨rfl, c, more, rfl, by simpa using hc⟩
  · exact .inr ⟨rfl, c, rest, rfl, by simpa using hc⟩

/-- The ways to end a text: there is one at most. -/
theorem ways_textTail (cs : List Char) :
    (seq (many (unit '"')) (one (· == '"'))).ways cs = (textTail cs).toList := by
  fun_induction textTail cs with
  | case1 => rw [ways_seq_many]; simp
  | case2 rest => rw [ways_seq_many, ways_unit_quote (by decide)]; simp
  | case3 rest => rw [ways_seq_many, ways_unit_escape]; simp
  | case4 c rest hc ih =>
    have hc : c ≠ '\n' := fun h => hc (h ▸ rfl)
    rw [ways_seq_many, ways_unit_escape, if_neg hc, List.flatMap_singleton, if_pos (by simp)]
    simp only [List.drop_succ_cons, List.drop_zero, ih]
    cases textTail rest <;> simp [Nat.add_comm]
  | case5 => rw [ways_seq_many]; simp
  | case6 c rest hq hfeed hescape hlast ih =>
    have hb : c ≠ '\\' := by
      rintro rfl
      cases rest with
      | nil => exact hlast rfl rfl
      | cons d rest => exact hescape d rest rfl rfl
    rw [ways_seq_many, ways_unit_plain hq hb, List.flatMap_singleton, if_pos (by simp)]
    have hend : c ≠ '"' := hq
    simp only [List.drop_succ_cons, List.drop_zero, ih, ways_one_cons]
    cases textTail rest <;> simp [Nat.add_comm, hend]

theorem ways_text (cs : List Char) : Rule.text.pattern.ways cs = (textLength cs).toList := by
  cases cs with
  | nil => rfl
  | cons c cs =>
    rw [Rule.pattern, ways_seq, ways_one_cons]
    by_cases hc : c = '"'
    · subst hc
      rw [if_pos (by rfl), List.flatMap_singleton, List.drop_one, List.tail_cons, ways_textTail,
        textLength]
      cases textTail cs <;> simp [Nat.add_comm]
    · have hnone : textLength (c :: cs) = none := by
        rw [textLength]
        simpa using hc
      simp [hc, hnone]

theorem ways_character (cs : List Char) :
    Rule.character.pattern.ways cs = (characterLength cs).toList := by
  unfold characterLength
  split
  next c rest => by_cases hc : c = '\n' <;> simp [Rule.pattern, ways_seq, ways_unit_escape, hc]
  next c rest hescape =>
    by_cases hb : c = '\\'
    · subst hb
      cases rest with
      | nil => simp [Rule.pattern, ways_seq, ways_unit_escape]
      | cons d rest =>
        have hd : d ≠ '\'' := fun h => hescape rest rfl (h ▸ rfl)
        simp [Rule.pattern, ways_seq, ways_unit_escape, hd]
    by_cases hq : c = '\''
    · subst hq
      simp [Rule.pattern, ways_seq, ways_unit_quote]
    · simp [Rule.pattern, ways_seq, ways_unit_plain hq hb, hq, hb]
  next hescape hplain =>
    refine List.eq_nil_iff_forall_not_mem.2 fun n hn => ?_
    simp only [Rule.pattern, mem_ways_seq, mem_ways_one] at hn
    obtain ⟨_, ⟨rfl, q, rest, rfl, hq⟩, _, ⟨k, hunit, _, ⟨rfl, e, tail, hend, he⟩, rfl⟩, rfl⟩ := hn
    cases beq_iff_eq.1 hq
    cases beq_iff_eq.1 he
    obtain ⟨rfl, c, more, hr, -⟩ | ⟨rfl, c, more, hr, -⟩ := eq_of_mem_ways_unit hunit
    · cases hr
      cases hend
      exact hescape _ _ rfl
    · cases hr
      cases hend
      exact hplain _ _ rfl

end Pattern

open Pattern

theorem symbols_ne_nil : ∀ entry ∈ symbols, entry.1 ≠ [] := by decide

theorem Rule.mem_all_symbol {spelling : List Char} {kind : Kind} :
    Rule.symbol spelling kind ∈ Rule.all ↔ (spelling, kind) ∈ symbols := by
  simp [Rule.all]

/-- Every rule matches what its pattern matches. -/
theorem Rule.length?_eq_first? {rule : Rule} (h : rule ∈ Rule.all) (cs : List Char) :
    rule.length? cs = rule.pattern.first? cs := by
  cases rule with
  | blank => exact (first?_plus_one Text.isBlank cs).symm
  | comment =>
    have hstart : ∀ cs, (Pattern.literal ['/', '/']).first? cs =
        if ['/', '/'].isPrefixOf cs then some 2 else none := by
      intro cs
      rw [Pattern.first?, ways_literal]
      split <;> rfl
    simp only [length?]
    split
    next rest =>
      have htwo : (Pattern.literal ['/', '/']).first? ('/' :: '/' :: rest) = some 2 := by
        simp [hstart]
      exact (first?_seq htwo (first?_many_one _ rest)).symm
    next hne =>
      refine (first?_seq_eq_none ?_).symm
      rw [hstart, if_neg]
      intro hp
      obtain ⟨rest, rfl⟩ := List.isPrefixOf_iff_prefix.1 hp
      exact hne rest rfl
  | word =>
    rw [Pattern.first?, pattern, name, ways_seq_assoc, ← Pattern.first?, length?]
    cases cs with
    | nil => rfl
    | cons c rest =>
      rw [wordLength]
      split
      next hc =>
        rw [positive, if_neg (by omega)]
        exact (first?_seq (by simp [first?_one, hc]) (first?_wordTail rest)).symm
      next hc => exact (first?_seq_eq_none (by simp [first?_one, hc])).symm
  | number => exact (first?_number cs).symm
  | text => rw [Pattern.first?, ways_text, length?, Option.head?_toList]
  | character => rw [Pattern.first?, ways_character, length?, Option.head?_toList]
  | symbol spelling kind =>
    have hne : spelling.length ≠ 0 :=
      fun h0 => symbols_ne_nil _ (mem_all_symbol.1 h) (List.length_eq_zero_iff.1 h0)
    rw [Pattern.first?, pattern, ways_literal, length?, positive, if_neg hne]
    split <;> rfl

end MuLang
