import MuLang.Proofs.Lexer.Choice

/-!
# The forms of words, numbers and literals

Which texts a rule takes as a whole: names with points between them, digits with a fraction and a
letter, and what stands between quotes.
-/
namespace MuLang

open Lexer

/-! ## Forms -/

/-- At least one digit. -/
def IsDigits (cs : List Char) : Prop := cs ≠ [] ∧ ∀ c ∈ cs, c.isDigit

/-- A name without points. -/
def IsName (cs : List Char) : Prop :=
  ∃ c rest, cs = c :: rest ∧ isNameStart c ∧ ∀ d ∈ rest, isNamePart d

/-- Names with a point between any two of them. -/
inductive IsWord : List Char → Prop
  | name {name : List Char} : IsName name → IsWord name
  | member {name rest : List Char} : IsName name → IsWord rest → IsWord (name ++ '.' :: rest)

/-- What stands for one character between quotes, or for a backslash and a character. -/
inductive IsUnit (quote : Char) : List Char → Prop
  | plain {c : Char} : c ≠ quote → c ≠ '\\' → IsUnit quote [c]
  | escape {c : Char} : c ≠ '\n' → IsUnit quote ['\\', c]

/-- What can stand between quotes. -/
inductive IsBody (quote : Char) : List Char → Prop
  | nil : IsBody quote []
  | cons {part rest : List Char} :
      IsUnit quote part → IsBody quote rest → IsBody quote (part ++ rest)

variable {cs : List Char}

/-! ## Words -/

theorem IsName.isWord_append {name rest : List Char} (h : IsName name)
    (hrest : rest = [] ∨ ∃ word, rest = '.' :: word ∧ IsWord word) : IsWord (name ++ rest) := by
  obtain rfl | ⟨word, rfl, hw⟩ := hrest
  · rw [List.append_nil]
    exact .name h
  · exact .member h hw

/-- What continues a word to the end of a text. -/
theorem of_wordTail_eq_length (h : wordTail cs = cs.length) :
    ∃ part rest, cs = part ++ rest ∧ (∀ c ∈ part, isNamePart c) ∧
      (rest = [] ∨ ∃ word, rest = '.' :: word ∧ IsWord word) := by
  fun_induction wordTail cs with
  | case1 => exact ⟨[], [], rfl, by simp, .inl rfl⟩
  | case2 c tail hc ih =>
    obtain ⟨part, rest, rfl, hpart, hrest⟩ := ih (by simp only [List.length_cons] at h; omega)
    have hname : IsName (c :: part) := ⟨c, part, rfl, hc, hpart⟩
    exact ⟨[], '.' :: c :: (part ++ rest), rfl, by simp, .inr ⟨_, rfl, hname.isWord_append hrest⟩⟩
  | case3 c tail hc => cases h
  | case4 c tail hne hc ih =>
    obtain ⟨part, rest, rfl, hpart, hrest⟩ := ih (by simp only [List.length_cons] at h; omega)
    exact ⟨c :: part, rest, rfl, List.forall_mem_cons.2 ⟨hc, hpart⟩, hrest⟩
  | case5 c tail hne hc => cases h

theorem wordTail_cons {c : Char} (hc : isNamePart c) : wordTail (c :: cs) = 1 + wordTail cs := by
  have hpoint : c ≠ '.' := by
    rintro rfl
    exact absurd hc (by decide)
  rw [wordTail.eq_def]
  split
  · contradiction
  next h =>
    cases h
    contradiction
  next h =>
    cases h
    rw [if_pos hc]

theorem wordTail_append {part rest : List Char} (h : ∀ c ∈ part, isNamePart c) :
    wordTail (part ++ rest) = part.length + wordTail rest := by
  induction part with
  | nil => simp
  | cons c part ih =>
    rw [List.forall_mem_cons] at h
    rw [List.cons_append, wordTail_cons h.1, ih h.2, List.length_cons]
    omega

theorem IsName.wordLength_append {name rest : List Char} (h : IsName name) :
    wordLength (name ++ rest) = name.length + wordTail rest := by
  obtain ⟨c, part, rfl, hc, hpart⟩ := h
  rw [List.cons_append, wordLength, if_pos hc, wordTail_append hpart, List.length_cons]
  omega

theorem IsWord.ne_nil (h : IsWord cs) : cs ≠ [] := by
  cases h with
  | name h =>
    obtain ⟨c, rest, rfl, -, -⟩ := h
    exact List.cons_ne_nil c rest
  | member h hrest => simp

theorem IsWord.wordLength_eq (h : IsWord cs) : wordLength cs = cs.length := by
  induction h with
  | @name name h =>
    rw [← List.append_nil name, h.wordLength_append, wordTail, List.append_nil, Nat.add_zero]
  | @member name rest h hw ih =>
    have htail : wordTail ('.' :: rest) = 1 + wordLength rest := by
      cases hw with
      | name hn =>
        obtain ⟨c, part, rfl, hc, -⟩ := hn
        rw [wordTail, wordLength, if_pos hc, if_pos hc]
        omega
      | @member _ more hn _ =>
        obtain ⟨c, part, rfl, hc, -⟩ := hn
        rw [List.cons_append, wordTail, wordLength, if_pos hc, if_pos hc]
        omega
    rw [h.wordLength_append, htail, ih, List.length_append, List.length_cons]
    omega

theorem isWord_of_wordLength (hne : cs ≠ []) (h : wordLength cs = cs.length) : IsWord cs := by
  obtain ⟨c, rest, rfl⟩ := List.exists_cons_of_ne_nil hne
  rw [wordLength] at h
  split at h
  next hc =>
    have htail : wordTail rest = rest.length := by
      rw [List.length_cons] at h
      omega
    obtain ⟨part, more, rfl, hpart, hmore⟩ := of_wordTail_eq_length htail
    have hname : IsName (c :: part) := ⟨c, part, rfl, hc, hpart⟩
    exact hname.isWord_append hmore
  · cases h

/-! ## Numbers -/

/-- The parts of a number: its whole part, the digits after a point, and a letter. -/
structure Numeral where
  whole : List Char
  decimals : Option (List Char)
  suffix : Option Char
  isDigits_whole : IsDigits whole
  isDigits_decimals : ∀ digits ∈ decimals, IsDigits digits
  isLetter_suffix : ∀ c ∈ suffix, isLetter c

namespace Numeral

def fraction (number : Numeral) : List Char := number.decimals.elim [] ('.' :: ·)

/-- A number without its letter. -/
def value (number : Numeral) : List Char := number.whole ++ number.fraction

def chars (number : Numeral) : List Char := number.value ++ number.suffix.toList

end Numeral

theorem isDigit_of_isLetter {c : Char} (h : isLetter c) : c.isDigit = false := by
  rw [isLetter, isAlpha_iff] at h
  rw [Bool.eq_false_iff, ne_eq, isDigit_iff]
  omega

theorem ne_point_of_isLetter {c : Char} (h : isLetter c) : c ≠ '.' := by
  rintro rfl
  exact absurd h (by decide)

theorem ne_point_of_isDigit {c : Char} (h : c.isDigit) : c ≠ '.' := by
  rintro rfl
  exact absurd h (by decide)

/-- Digits end before what does not begin with one. -/
theorem digitsLength_append {whole rest : List Char} (hw : ∀ c ∈ whole, c.isDigit)
    (hr : ∀ c ∈ rest.head?, c.isDigit = false) : digitsLength (whole ++ rest) = whole.length := by
  have hrest : rest.takeWhile Char.isDigit = [] := by
    cases rest with
    | nil => rfl
    | cons c rest => exact List.takeWhile_cons_of_neg (by simp [hr c rfl])
  rw [digitsLength, List.takeWhile_append_of_pos hw, hrest, List.append_nil]

/-- A text is its leading digits and what follows them. -/
theorem exists_digits (cs : List Char) :
    ∃ digits rest, cs = digits ++ rest ∧ (∀ c ∈ digits, c.isDigit) ∧
      digitsLength cs = digits.length :=
  ⟨cs.takeWhile Char.isDigit, cs.dropWhile Char.isDigit, List.takeWhile_append_dropWhile.symm,
    fun _ hc => List.all_eq_true.1 List.all_takeWhile _ hc, rfl⟩

theorem exists_suffix (h : suffixLength cs = cs.length) :
    ∃ suffix : Option Char, cs = suffix.toList ∧ ∀ c ∈ suffix, isLetter c := by
  cases cs with
  | nil => exact ⟨none, rfl, by simp⟩
  | cons c rest =>
    rw [suffixLength, List.length_cons] at h
    split at h
    next hc =>
      have hrest : rest = [] := List.eq_nil_of_length_eq_zero (by omega)
      exact ⟨some c, by rw [hrest]; rfl, by simp [hc]⟩
    · omega

theorem exists_fraction
    (h : fractionLength cs + suffixLength (cs.drop (fractionLength cs)) = cs.length) :
    ∃ (decimals : Option (List Char)) (suffix : Option Char),
      cs = decimals.elim [] ('.' :: ·) ++ suffix.toList ∧ (∀ digits ∈ decimals, IsDigits digits) ∧
        ∀ c ∈ suffix, isLetter c := by
  unfold fractionLength at h
  split at h
  next rest =>
    split at h
    next h0 =>
      have hsuffix : suffixLength ('.' :: rest) = ('.' :: rest).length := by simpa using h
      obtain ⟨suffix, hs, hl⟩ := exists_suffix hsuffix
      exact ⟨none, suffix, hs, by simp, hl⟩
    next h0 =>
      obtain ⟨digits, more, rfl, hd, hlength⟩ := exists_digits rest
      rw [hlength] at h h0
      have hsuffix : suffixLength more = more.length := by
        rw [Nat.add_comm 1, List.drop_succ_cons, List.drop_left] at h
        simp only [List.length_cons, List.length_append] at h
        omega
      obtain ⟨suffix, rfl, hl⟩ := exists_suffix hsuffix
      refine ⟨some digits, suffix, rfl, ?_, hl⟩
      rintro _ ⟨⟩
      exact ⟨fun hnil => h0 (by rw [hnil]; rfl), hd⟩
  next hne =>
    have hsuffix : suffixLength cs = cs.length := by simpa using h
    obtain ⟨suffix, hs, hl⟩ := exists_suffix hsuffix
    exact ⟨none, suffix, hs, by simp, hl⟩

/-- What is a number as a whole has the parts of one. -/
theorem exists_numeral (hne : cs ≠ []) (h : numberLength cs = cs.length) :
    ∃ number : Numeral, number.chars = cs := by
  obtain ⟨whole, rest, rfl, hw, hlength⟩ := exists_digits cs
  simp only [numberLength, hlength] at h
  split at h
  next h0 => exact absurd (List.eq_nil_of_length_eq_zero h.symm) hne
  next h0 =>
    rw [List.drop_left, ← List.drop_drop, List.drop_left, List.length_append] at h
    have hrest : fractionLength rest + suffixLength (rest.drop (fractionLength rest)) =
        rest.length := by omega
    obtain ⟨decimals, suffix, rfl, hd, hs⟩ := exists_fraction hrest
    exact ⟨⟨whole, decimals, suffix, ⟨fun hnil => h0 (by rw [hnil]; rfl), hw⟩, hd, hs⟩,
      List.append_assoc _ _ _⟩

namespace Numeral

variable (number : Numeral)

theorem fractionLength_eq :
    fractionLength (number.fraction ++ number.suffix.toList) = number.fraction.length := by
  obtain ⟨whole, decimals, suffix, hw, hd, hs⟩ := number
  cases decimals with
  | none =>
    cases suffix with
    | none => rfl
    | some c =>
      rw [fraction, Option.elim_none, List.nil_append, Option.toList_some, fractionLength]
      · rfl
      · rintro _ ⟨⟩
        exact ne_point_of_isLetter (hs _ rfl) rfl
  | some digits =>
    have hlength : digitsLength (digits ++ suffix.toList) = digits.length := by
      refine digitsLength_append (hd digits rfl).2 fun c hc => isDigit_of_isLetter (hs c ?_)
      rwa [Option.head?_toList] at hc
    have hne : digits.length ≠ 0 := fun h0 => (hd digits rfl).1 (List.eq_nil_of_length_eq_zero h0)
    rw [fraction, Option.elim_some, List.cons_append, fractionLength, hlength, if_neg hne,
      List.length_cons, Nat.add_comm]

theorem numberLength_eq : numberLength number.chars = number.chars.length := by
  have hwhole : digitsLength (number.whole ++ (number.fraction ++ number.suffix.toList)) =
      number.whole.length := by
    refine digitsLength_append number.isDigits_whole.2 fun c hc => ?_
    obtain ⟨whole, decimals, suffix, hw, hd, hs⟩ := number
    cases decimals with
    | none =>
      rw [fraction, Option.elim_none, List.nil_append, Option.head?_toList] at hc
      exact isDigit_of_isLetter (hs c hc)
    | some digits =>
      cases hc
      rfl
  have hne : number.whole.length ≠ 0 :=
    fun h0 => number.isDigits_whole.1 (List.eq_nil_of_length_eq_zero h0)
  have hsuffix : suffixLength number.suffix.toList = number.suffix.toList.length := by
    cases hs : number.suffix with
    | none => rfl
    | some c => simp [suffixLength, number.isLetter_suffix c hs]
  rw [chars, value, List.append_assoc, numberLength]
  simp only [hwhole, if_neg hne, List.drop_left, fractionLength_eq, ← List.drop_drop, hsuffix,
    List.length_append]
  omega

theorem value_ne_nil : number.value ≠ [] := by
  simp [value, number.isDigits_whole.1]

/-- A point stands in a number just if it has a fraction. -/
theorem contains_point : number.chars.contains '.' = number.decimals.isSome := by
  obtain ⟨whole, decimals, suffix, hw, hd, hs⟩ := number
  have hwhole : '.' ∉ whole := fun h => ne_point_of_isDigit (hw.2 _ h) rfl
  have hsuffix : '.' ∉ suffix.toList := fun h => ne_point_of_isLetter (hs _ (by simpa using h)) rfl
  cases decimals <;> simp [chars, value, fraction, hwhole, hsuffix]

/-- The last character of a number without a letter is a digit. -/
theorem isDigit_getLast? : ∃ c, number.value.getLast? = some c ∧ c.isDigit := by
  obtain ⟨whole, decimals, suffix, hw, hd, hs⟩ := number
  have hlast : ∀ digits, IsDigits digits → ∃ c, digits.getLast? = some c ∧ c.isDigit :=
    fun digits hdigits => ⟨_, List.getLast?_eq_some_getLast hdigits.1,
      hdigits.2 _ (List.getLast_mem hdigits.1)⟩
  cases decimals with
  | none => simpa [value, fraction] using hlast whole hw
  | some digits =>
    obtain ⟨c, hc, hdigit⟩ := hlast digits (hd digits rfl)
    exact ⟨c, by simp [value, fraction, List.getLast?_cons, hc], hdigit⟩

/-- What a number says: its letter has to go with its fraction. -/
theorem numberLexeme_eq : numberLexeme number.chars = match number.suffix with
    | none =>
      .ok ⟨.literal (if number.decimals.isSome then .double else .integer),
        String.ofList number.value⟩
    | some c =>
      if (c = 'f' ∨ c = 'F') ∧ number.decimals.isSome then
        .ok ⟨.literal .float, String.ofList number.value⟩
      else if (c = 'l' ∨ c = 'L') ∧ ¬number.decimals.isSome then
        .ok ⟨.literal .long, String.ofList number.value⟩
      else .error (.malformedNumber (String.ofList number.chars)) := by
  rw [numberLexeme]
  simp only [contains_point]
  cases hs : number.suffix with
  | none =>
    have hchars : number.chars = number.value := by simp [chars, hs]
    obtain ⟨c, hc, hdigit⟩ := number.isDigit_getLast?
    have hf : ¬(c = 'f' ∨ c = 'F') := by
      rintro (rfl | rfl) <;> cases hdigit
    have hl : ¬(c = 'l' ∨ c = 'L') := by
      rintro (rfl | rfl) <;> cases hdigit
    simp [hchars, hc, hf, hl, hdigit]
  | some c =>
    have hchars : number.chars = number.value ++ [c] := by simp [chars, hs]
    have hdigit : c.isDigit = false := isDigit_of_isLetter (number.isLetter_suffix c hs)
    simp [hchars, hdigit]

end Numeral

/-! ## Bodies -/

theorem textTail_plain {c : Char} (hq : c ≠ '"') (hb : c ≠ '\\') :
    textTail (c :: cs) = (textTail cs).map (· + 1) := by
  rw [textTail.eq_def]
  split <;> simp_all

theorem textTail_escape {c : Char} (hc : c ≠ '\n') :
    textTail ('\\' :: c :: cs) = (textTail cs).map (· + 2) := by
  rw [textTail]
  exact hc

theorem textTail_body {body : List Char} (h : IsBody '"' body) (rest : List Char) :
    textTail (body ++ '"' :: rest) = some (body.length + 1) := by
  induction h with
  | nil => rfl
  | @cons part more hp hb ih =>
    cases hp with
    | plain hq hb =>
      rw [List.append_assoc, List.cons_append, textTail_plain hq hb, List.nil_append, ih]
      simp [Nat.add_comm]
    | escape hc =>
      rw [List.append_assoc, List.cons_append, List.cons_append, textTail_escape hc,
        List.nil_append, ih]
      simp only [Option.map_some, List.length_append, List.length_cons, List.length_nil,
        Option.some.injEq]
      omega

/-- What is a text to the end has a body and a quote. -/
theorem isBody_of_textTail (h : textTail cs = some cs.length) :
    ∃ body, cs = body ++ ['"'] ∧ IsBody '"' body := by
  fun_induction textTail cs with
  | case1 => cases h
  | case2 rest =>
    have hrest : rest = [] := List.eq_nil_of_length_eq_zero (by simpa using h.symm)
    exact ⟨[], by rw [hrest]; rfl, .nil⟩
  | case3 rest => cases h
  | case4 c rest hc ih =>
    have hc : c ≠ '\n' := fun hfeed => hc (hfeed ▸ rfl)
    obtain ⟨body, rfl, hb⟩ := ih (by simpa using h)
    exact ⟨_, rfl, .cons (.escape hc) hb⟩
  | case5 => cases h
  | case6 c rest hq hfeed hescape hlast ih =>
    have hb : c ≠ '\\' := by
      rintro rfl
      cases rest with
      | nil => exact hlast rfl rfl
      | cons d rest => exact hescape d rest rfl rfl
    obtain ⟨body, rfl, hbody⟩ := ih (by simpa using h)
    exact ⟨_, rfl, .cons (.plain hq hb) hbody⟩

theorem textLength_eq_length : textLength cs = some cs.length ↔
    ∃ body, cs = '"' :: body ++ ['"'] ∧ IsBody '"' body := by
  constructor
  · intro h
    unfold textLength at h
    split at h
    next rest =>
      have hrest : textTail rest = some rest.length := by simpa using h
      obtain ⟨body, rfl, hb⟩ := isBody_of_textTail hrest
      exact ⟨body, rfl, hb⟩
    · cases h
  · rintro ⟨body, rfl, hb⟩
    have htail := textTail_body hb []
    simp [textLength, htail]

theorem characterLength_eq_length : characterLength cs = some cs.length ↔
    ∃ body, cs = '\'' :: body ++ ['\''] ∧ IsUnit '\'' body := by
  constructor
  · intro h
    unfold characterLength at h
    split at h
    next c rest =>
      split at h
      · cases h
      next hc =>
        have hrest : rest = [] := List.eq_nil_of_length_eq_zero (by simpa using h.symm)
        exact ⟨['\\', c], by rw [hrest]; rfl, .escape hc⟩
    next c rest _ =>
      split at h
      · cases h
      next hc =>
        have hrest : rest = [] := List.eq_nil_of_length_eq_zero (by simpa using h.symm)
        rw [not_or] at hc
        exact ⟨[c], by rw [hrest]; rfl, .plain hc.1 hc.2⟩
    · cases h
  · rintro ⟨body, rfl, hb⟩
    cases hb with
    | @plain c hq hb =>
      have hslice : '\'' :: [c] ++ ['\''] = ['\'', c, '\''] := rfl
      rw [hslice, characterLength, if_neg (by simp [hq, hb])]
      · rfl
      · intro _ hc
        exact absurd hc hb
    | escape hc => simp [characterLength, hc]

end MuLang
