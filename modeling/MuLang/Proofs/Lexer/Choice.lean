import MuLang.Proofs.Lexer.Rules

/-!
# The choice of a rule

The first rule that matches is the one with the longest match. The first character of a match tells
the rule, unless it is a sign: only comments and symbols can match at the same place, and of these
the one that comes first takes more.

The choice does not depend on what stands after the match when the text ends there, and neither does
it when a line feed follows, unless the match is of blanks and reaches the line feed.
-/
namespace MuLang

open Lexer

variable {cs more : List Char} {c : Char} {n m : Nat} {rule other : Rule}

/-! ## Characters -/

theorem isUpper_iff : c.isUpper ↔ 65 ≤ c.toNat ∧ c.toNat ≤ 90 := decide_eq_true_iff

theorem isLower_iff : c.isLower ↔ 97 ≤ c.toNat ∧ c.toNat ≤ 122 :=
  Bool.and_eq_true_iff.trans (and_congr decide_eq_true_iff decide_eq_true_iff)

theorem isAlpha_iff : c.isAlpha ↔ 65 ≤ c.toNat ∧ c.toNat ≤ 90 ∨ 97 ≤ c.toNat ∧ c.toNat ≤ 122 :=
  Bool.or_eq_true_iff.trans (or_congr isUpper_iff isLower_iff)

theorem isDigit_iff : c.isDigit ↔ 48 ≤ c.toNat ∧ c.toNat ≤ 57 :=
  Bool.and_eq_true_iff.trans (and_congr decide_eq_true_iff decide_eq_true_iff)

theorem isNameStart_iff : isNameStart c ↔ c.isAlpha ∨ c = '_' := by
  simp [isNameStart]

theorem isBlank_of_isNameStart (h : isNameStart c) : Text.isBlank c = false := by
  rw [isNameStart_iff, isAlpha_iff] at h
  obtain h | rfl := h
  · simp [Text.isBlank]
    omega
  · decide

theorem isBlank_of_isDigit (h : c.isDigit) : Text.isBlank c = false := by
  rw [isDigit_iff] at h
  simp [Text.isBlank]
  omega

theorem isNameStart_of_isDigit (h : c.isDigit) : isNameStart c = false := by
  rw [isDigit_iff] at h
  rw [Bool.eq_false_iff, ne_eq, isNameStart_iff, isAlpha_iff]
  rintro (ha | rfl)
  · omega
  · exact absurd h (by decide)

namespace Rule

/-! ## Starts of matches -/

/-- A comment or a symbol. -/
def isSign : Rule → Bool
  | .comment | .symbol .. => true
  | _ => false

/-- The rule that matches where a character stands, unless it is a sign. -/
def ofStart? (c : Char) : Option Rule :=
  if Text.isBlank c then some .blank
  else if isNameStart c then some .word
  else if c.isDigit then some .number
  else if c = '"' then some .text
  else if c = '\'' then some .character
  else none

/-- The characters of symbols start nothing else. -/
theorem ofStart?_of_mem_symbols {entry : List Char × Kind} (he : entry ∈ symbols) {c : Char}
    (hc : c ∈ entry.1) : ofStart? c = none := by
  -- Decided by running through the lists: the quantifier over characters may try every character.
  have hall : symbols.all fun entry => entry.1.all fun c => ofStart? c = none := by decide
  simpa using List.all_eq_true.1 (List.all_eq_true.1 hall entry he) c hc

theorem mem_ways_of_length? (hr : rule ∈ all) (h : rule.length? cs = some n) :
    n ∈ rule.pattern.ways cs := by
  rw [length?_eq_first? hr] at h
  exact List.mem_of_head? h

theorem length?_nil (rule : Rule) : rule.length? [] = none := by
  cases rule with
  | symbol spelling kind => cases spelling <;> rfl
  | _ => rfl

theorem ofStart?_of_length? (hr : rule ∈ all) (h : rule.length? (c :: cs) = some n) :
    ofStart? c = if rule.isSign then none else some rule := by
  have hways := mem_ways_of_length? hr h
  cases rule with
  | blank =>
    obtain ⟨_, hstart, -⟩ := Pattern.mem_ways_seq.1 hways
    obtain ⟨-, _, _, ⟨⟩, hc⟩ := Pattern.mem_ways_one.1 hstart
    simp [ofStart?, hc, isSign]
  | comment =>
    obtain ⟨_, hstart, -⟩ := Pattern.mem_ways_seq.1 hways
    obtain ⟨_, hstart, -⟩ := Pattern.mem_ways_seq.1 hstart
    obtain ⟨-, _, _, ⟨⟩, hc⟩ := Pattern.mem_ways_one.1 hstart
    cases beq_iff_eq.1 hc
    rfl
  | word =>
    obtain ⟨_, hstart, -⟩ := Pattern.mem_ways_seq.1 hways
    obtain ⟨_, hstart, -⟩ := Pattern.mem_ways_seq.1 hstart
    obtain ⟨-, _, _, ⟨⟩, hc⟩ := Pattern.mem_ways_one.1 hstart
    simp [ofStart?, hc, isBlank_of_isNameStart hc, isSign]
  | number =>
    obtain ⟨_, hstart, -⟩ := Pattern.mem_ways_seq.1 hways
    obtain ⟨_, hstart, -⟩ := Pattern.mem_ways_seq.1 hstart
    obtain ⟨-, _, _, ⟨⟩, hc⟩ := Pattern.mem_ways_one.1 hstart
    simp [ofStart?, hc, isBlank_of_isDigit hc, isNameStart_of_isDigit hc, isSign]
  | text =>
    obtain ⟨_, hstart, -⟩ := Pattern.mem_ways_seq.1 hways
    obtain ⟨-, _, _, ⟨⟩, hc⟩ := Pattern.mem_ways_one.1 hstart
    cases beq_iff_eq.1 hc
    rfl
  | character =>
    obtain ⟨_, hstart, -⟩ := Pattern.mem_ways_seq.1 hways
    obtain ⟨-, _, _, ⟨⟩, hc⟩ := Pattern.mem_ways_one.1 hstart
    cases beq_iff_eq.1 hc
    rfl
  | symbol spelling kind =>
    obtain ⟨d, rest, rfl⟩ := List.exists_cons_of_ne_nil (symbols_ne_nil _ (mem_all_symbol.1 hr))
    obtain ⟨_, hstart, -⟩ := Pattern.mem_ways_seq.1 hways
    obtain ⟨-, _, _, ⟨⟩, hc⟩ := Pattern.mem_ways_one.1 hstart
    cases beq_iff_eq.1 hc
    exact ofStart?_of_mem_symbols (mem_all_symbol.1 hr) List.mem_cons_self

/-- Of the rules that match at the same place there is one only, or all of them are signs. -/
theorem eq_or_signs (hr : rule ∈ all) (ho : other ∈ all) (h : rule.length? cs = some n)
    (hother : other.length? cs = some m) : rule = other ∨ (rule.isSign ∧ other.isSign) := by
  cases cs with
  | nil =>
    rw [length?_nil] at h
    cases h
  | cons c cs =>
    have hstart := (ofStart?_of_length? hr h).symm.trans (ofStart?_of_length? ho hother)
    cases hs : rule.isSign <;> cases ht : other.isSign <;> simp_all

/-! ## The longest match -/

/-- A rule takes more than another wherever both match. -/
def Outranks (rule other : Rule) : Prop :=
  ∀ cs n m, rule.length? cs = some n → other.length? cs = some m → m < n

/-- The text that every match of a sign begins with. -/
def mark : Rule → List Char
  | .comment => ['/', '/']
  | .symbol spelling _ => spelling
  | _ => []

/-- Of two different rules the mark of the first one, if both are signs, does not begin that of the
second one, which is a symbol. -/
def precedes (rule other : Rule) : Bool :=
  rule ≠ other &&
    (rule.isSign && other.isSign → other ≠ .comment && !rule.mark.isPrefixOf other.mark)

theorem pairwise_precedes : all.Pairwise fun rule other => rule.precedes other := by
  decide

theorem mark_of_length? (hs : rule.isSign) (h : rule.length? cs = some n) :
    rule.mark <+: cs ∧ rule.mark.length ≤ n ∧ (rule ≠ .comment → n = rule.mark.length) := by
  cases rule with
  | comment =>
    simp only [length?] at h
    split at h
    next rest =>
      cases h
      exact ⟨⟨rest, rfl⟩, by simp [mark], fun hne => absurd rfl hne⟩
    · cases h
  | symbol spelling kind =>
    simp only [length?, positive] at h
    split at h
    next hp =>
      split at h <;> cases h
      exact ⟨List.isPrefixOf_iff_prefix.1 hp, Nat.le_refl _, fun _ => rfl⟩
    · cases h
  | _ => cases hs

theorem outranks_of_precedes (hr : rule ∈ all) (ho : other ∈ all) (hp : rule.precedes other) :
    rule.Outranks other := by
  intro cs n m h hother
  simp only [precedes, Bool.and_eq_true, decide_eq_true_eq, Bool.not_eq_true',
    Bool.eq_false_iff, ne_eq, List.isPrefixOf_iff_prefix] at hp
  obtain ⟨hne, hp⟩ := hp
  obtain rfl | hsigns := eq_or_signs hr ho h hother
  · exact absurd rfl hne
  obtain ⟨hsymbol, hmark⟩ := hp hsigns
  obtain ⟨hp, hn, -⟩ := mark_of_length? hsigns.1 h
  obtain ⟨hq, -, hm⟩ := mark_of_length? hsigns.2 hother
  -- Both marks begin the text, so that the second one is a part of the first.
  obtain hmarks | hmarks := List.prefix_or_prefix_of_prefix hp hq
  · exact absurd hmarks hmark
  · have hlt : other.mark.length < rule.mark.length := by
      refine Nat.lt_of_le_of_ne hmarks.length_le fun hl => hmark ?_
      exact hmarks.eq_of_length hl ▸ List.prefix_rfl
    rw [hm hsymbol]
    omega

theorem pairwise_all : all.Pairwise Outranks :=
  pairwise_precedes.imp_of_mem outranks_of_precedes

theorem first?_eq_some_iff_of_pairwise {rules : List Rule} (hp : rules.Pairwise Outranks) :
    first? cs rules = some (rule, n) ↔ rule ∈ rules ∧ rule.length? cs = some n ∧
      ∀ other ∈ rules, ∀ m, other.length? cs = some m → m ≤ n := by
  induction rules with
  | nil => simp [first?]
  | cons head rules ih =>
    obtain ⟨hhead, hp⟩ := List.pairwise_cons.1 hp
    cases h : head.length? cs with
    | none =>
      simp only [first?, h, ih hp, List.mem_cons, forall_eq_or_imp, reduceCtorEq, false_imp_iff,
        implies_true, true_and]
      constructor
      · rintro ⟨hr, hn, hmax⟩
        exact ⟨.inr hr, hn, hmax⟩
      · rintro ⟨rfl | hr, hn, hmax⟩
        · rw [h] at hn
          cases hn
        · exact ⟨hr, hn, hmax⟩
    | some k =>
      simp only [first?, h, Option.some.injEq, Prod.mk.injEq, List.mem_cons, forall_eq_or_imp]
      constructor
      · rintro ⟨rfl, rfl⟩
        exact ⟨.inl rfl, h, fun m hm => Nat.le_of_eq hm.symm,
          fun other ho m hm => Nat.le_of_lt (hhead other ho cs k m h hm)⟩
      · rintro ⟨rfl | hr, hn, hk, -⟩
        · exact ⟨rfl, Option.some.inj (h.symm.trans hn)⟩
        · have hlt := hhead rule hr cs k n h hn
          have hle := hk k rfl
          omega

/-- The rule that is chosen has the longest match. -/
theorem first?_all : first? cs all = some (rule, n) ↔ rule ∈ all ∧ rule.length? cs = some n ∧
    ∀ other ∈ all, ∀ m, other.length? cs = some m → m ≤ n :=
  first?_eq_some_iff_of_pairwise pairwise_all

theorem first?_of_not_sign (hr : rule ∈ all) (hs : rule.isSign = false)
    (h : rule.length? cs = some n) : first? cs all = some (rule, n) := by
  refine first?_all.2 ⟨hr, h, fun other ho m hm => ?_⟩
  obtain rfl | ⟨hsign, -⟩ := eq_or_signs hr ho h hm
  · exact Nat.le_of_eq (Option.some.inj (hm.symm.trans h))
  · rw [hs] at hsign
    cases hsign

theorem length?_le (hr : rule ∈ all) (h : rule.length? cs = some n) : n ≤ cs.length :=
  Pattern.le_of_mem_ways (mem_ways_of_length? hr h)

/-- A match of the whole text is the longest one. -/
theorem first?_of_whole (hr : rule ∈ all) (h : rule.length? cs = some cs.length) :
    first? cs all = some (rule, cs.length) :=
  first?_all.2 ⟨hr, h, fun _ ho _ hm => length?_le ho hm⟩

/-! ## What follows a match -/

/-- The choice is the same when the text ends with the match or later. -/
theorem first?_of_append (h : first? (cs ++ more) all = some (rule, n)) (hn : n ≤ cs.length) :
    first? cs all = some (rule, n) := by
  obtain ⟨hr, hlength, hmax⟩ := first?_all.1 h
  rw [length?_eq_first? hr] at hlength
  refine first?_all.2 ⟨hr, ?_, fun other ho m hm => ?_⟩
  · rw [length?_eq_first? hr]
    exact Pattern.first?_of_append hlength hn
  · rw [length?_eq_first? ho] at hm
    obtain ⟨k, hk⟩ := Pattern.exists_first?_append more hm
    have hle : k ≤ n := hmax other ho k (by rw [length?_eq_first? ho, hk])
    cases hm.symm.trans (Pattern.first?_of_append hk (Nat.le_trans hle hn))
    exact hle

/-! ## Before a line feed -/

theorem avoids_feed_of_forall {spelling : List Char} (h : ∀ c ∈ spelling, c ≠ '\n') :
    (Pattern.literal spelling).Avoids '\n' := by
  induction spelling with
  | nil => trivial
  | cons c spelling ih =>
    rw [List.forall_mem_cons] at h
    exact ⟨beq_false_of_ne (Ne.symm h.1), ih h.2⟩

/-- Only blanks, texts and characters have line feeds. -/
theorem avoids_feed (hr : rule ∈ all) (h : rule ∉ [.blank, .text, .character]) :
    rule.pattern.Avoids '\n' := by
  cases rule with
  | blank | text | character => simp at h
  | comment => simp [pattern, Pattern.literal, Pattern.Avoids]
  | word => simp [pattern, Pattern.name, Pattern.member, Pattern.Avoids]; decide
  | number => simp [pattern, Pattern.plus, Pattern.fraction, Pattern.Avoids]; decide
  | symbol spelling kind =>
    refine avoids_feed_of_forall fun c hc => ?_
    rintro rfl
    cases ofStart?_of_mem_symbols (mem_all_symbol.1 hr) hc

theorem length?_feed (hr : rule ∈ all) (h : rule ∉ [.blank, .text, .character]) :
    rule.length? (cs ++ '\n' :: more) = rule.length? cs := by
  rw [length?_eq_first? hr, length?_eq_first? hr, Pattern.first?, Pattern.first?,
    Pattern.ways_append_of_avoids (avoids_feed hr h)]

/-- Where there is one way at most, a match stays the match when more text follows. -/
theorem length?_append_of_ways (hways : ∀ cs, rule.pattern.ways cs = (rule.length? cs).toList)
    (h : rule.length? cs = some n) : rule.length? (cs ++ more) = some n := by
  have happend := rule.pattern.ways_append cs more
  rw [hways, hways, h, Option.toList_some] at happend
  cases hmore : rule.length? (cs ++ more) with
  | none =>
    rw [hmore] at happend
    cases happend
  | some k =>
    rw [hmore, Option.toList_some] at happend
    have hmem : n ∈ [k] := List.mem_of_mem_filter (happend ▸ List.mem_singleton_self n)
    rw [List.mem_singleton.1 hmem]

/-- A rule that matches does not look beyond a line feed, but blanks may go on there. -/
theorem length?_feed_of_some (hr : rule ∈ all) (h : rule.length? cs = some n)
    (hb : rule = .blank → n < cs.length) : rule.length? (cs ++ '\n' :: more) = some n := by
  cases rule with
  | blank =>
    have htake : (cs.takeWhile Text.isBlank).length = n := (positive_eq_some_iff.1 h).1
    rw [length?, List.takeWhile_append, if_neg (by have := hb rfl; omega)]
    exact h
  | text => exact length?_append_of_ways Pattern.ways_text h
  | character => exact length?_append_of_ways Pattern.ways_character h
  | _ => rw [length?_feed hr (by simp), h]

/-- The choice is the same when a line feed follows, unless it is for blanks up to there. -/
theorem first?_feed (more : List Char) (h : first? cs all = some (rule, n))
    (hb : rule = .blank → n < cs.length) :
    first? (cs ++ '\n' :: more) all = some (rule, n) := by
  obtain ⟨hr, hlength, hmax⟩ := first?_all.1 h
  have hn : rule.length? (cs ++ '\n' :: more) = some n := length?_feed_of_some hr hlength hb
  refine first?_all.2 ⟨hr, hn, fun other ho m hm => ?_⟩
  obtain rfl | ⟨-, hsign⟩ := eq_or_signs hr ho hn hm
  · exact Nat.le_of_eq (Option.some.inj (hm.symm.trans hn))
  · refine hmax other ho m ?_
    rwa [length?_feed ho (by cases other <;> simp_all [isSign])] at hm

end Rule

end MuLang
