import MuLang.Token.Lexer
import Mathlib.Data.List.Basic

/-!
# Patterns

Regular expressions for the start of a text, read as a search that tries one way after another: the
first side of a choice before the second, an optional part before nothing, one more repetition
before an end of them. What such an expression matches is what the first successful way takes.

A search never looks past what it takes: the ways through a text that is cut off are the ways through
the whole text that end before the cut. And no way leads across a character that no part of the
expression accepts.
-/
namespace MuLang

/-- A regular expression for the start of a text. -/
inductive Pattern where
  | nothing
  | one (accepts : Char → Bool)
  | seq (first second : Pattern)
  | either (first second : Pattern)
  | option (body : Pattern)
  | many (body : Pattern)

namespace Pattern

/-- The lengths of repeated matches, more repetitions before fewer. A repetition takes something. -/
def repeated (body : List Char → List Nat) (cs : List Char) : List Nat :=
  (body cs).flatMap (fun n =>
    if _taken : 0 < n ∧ n ≤ cs.length then (repeated body (cs.drop n)).map (n + ·) else []) ++ [0]
termination_by cs.length
decreasing_by
  rw [List.length_drop]
  omega

/-- The lengths of all ways to match, in the order in which they are tried. -/
def ways : Pattern → List Char → List Nat
  | .nothing => fun _ => [0]
  | .one accepts => fun cs => if cs.head?.any accepts then [1] else []
  | .seq first second => fun cs =>
    (first.ways cs).flatMap fun n => (second.ways (cs.drop n)).map (n + ·)
  | .either first second => fun cs => first.ways cs ++ second.ways cs
  | .option body => fun cs => body.ways cs ++ [0]
  | .many body => repeated body.ways

/-- The length of the match, which is the first way that leads to an end. -/
def first? (pattern : Pattern) (cs : List Char) : Option Nat := (pattern.ways cs).head?

/-- A fixed text. -/
def literal : List Char → Pattern
  | [] => .nothing
  | c :: rest => .seq (.one (· == c)) (literal rest)

/-- At least one match. -/
def plus (body : Pattern) : Pattern := .seq body (.many body)

/-- No part of a pattern accepts a character. -/
def Avoids (c : Char) : Pattern → Prop
  | .nothing => True
  | .one accepts => accepts c = false
  | .seq first second => first.Avoids c ∧ second.Avoids c
  | .either first second => first.Avoids c ∧ second.Avoids c
  | .option body => body.Avoids c
  | .many body => body.Avoids c

/-! ## Ways through a part of a text -/

variable {pattern first second body : Pattern} {cs : List Char} {n m : Nat} {accepts : Char → Bool}

@[simp] theorem ways_one_nil : (one accepts).ways [] = [] := rfl

@[simp] theorem ways_one_cons {c : Char} :
    (one accepts).ways (c :: cs) = if accepts c then [1] else [] := rfl

theorem mem_ways_one :
    n ∈ (one accepts).ways cs ↔ n = 1 ∧ ∃ c rest, cs = c :: rest ∧ accepts c := by
  cases cs with
  | nil => simp
  | cons c cs => by_cases hc : accepts c <;> simp [hc]

theorem ways_seq : (seq first second).ways cs =
    (first.ways cs).flatMap fun n => (second.ways (cs.drop n)).map (n + ·) := rfl

theorem mem_ways_seq : n ∈ (seq first second).ways cs ↔
    ∃ m ∈ first.ways cs, ∃ k ∈ second.ways (cs.drop m), m + k = n := by
  simp [ways_seq]

theorem mem_ways_either :
    n ∈ (either first second).ways cs ↔ n ∈ first.ways cs ∨ n ∈ second.ways cs := List.mem_append

theorem ways_many : (many body).ways cs = (body.ways cs).flatMap (fun n =>
    if 0 < n ∧ n ≤ cs.length then ((many body).ways (cs.drop n)).map (n + ·) else []) ++ [0] := by
  rw [ways, repeated]
  rfl

theorem flatMap_filter_way {f : Nat → List Nat} {bound : Nat} (list : List Nat) :
    (list.filter (· ≤ bound)).flatMap f = list.flatMap fun n => if n ≤ bound then f n else [] := by
  induction list with
  | nil => rfl
  | cons n list ih => by_cases h : n ≤ bound <;> simp [h, ih]

/-- Of the ways after a match, those that end before a cut are the ways up to the cut. -/
theorem filter_map_way {list : List Nat} {n bound : Nat} (h : n ≤ bound) :
    (list.map (n + ·)).filter (· ≤ bound) = (list.filter (· ≤ bound - n)).map (n + ·) := by
  rw [List.filter_map]
  congr 2
  funext m
  exact decide_eq_decide.2 (Nat.le_sub_iff_add_le' h).symm

theorem filter_map_way_of_lt {list : List Nat} {n bound : Nat} (h : bound < n) :
    (list.map (n + ·)).filter (· ≤ bound) = [] := by
  simp only [List.filter_eq_nil_iff, List.mem_map, decide_eq_true_eq]
  rintro _ ⟨m, -, rfl⟩
  omega

theorem repeated_append {body : List Char → List Nat} {more : List Char}
    (hbody : ∀ cs, body cs = (body (cs ++ more)).filter (· ≤ cs.length)) (cs : List Char) :
    repeated body cs = (repeated body (cs ++ more)).filter (· ≤ cs.length) := by
  induction cs using repeated.induct with
  | case1 cs ih =>
    rw [repeated, repeated, List.filter_append, List.filter_flatMap, hbody cs,
      flatMap_filter_way]
    congr 1
    refine List.flatMap_congr fun n _ => ?_
    by_cases hn : n ≤ cs.length
    · by_cases h0 : 0 < n
      · rw [if_pos hn, dif_pos ⟨h0, hn⟩, dif_pos ⟨h0, by rw [List.length_append]; omega⟩,
          filter_map_way hn, List.drop_append_of_le_length hn, ih n ⟨h0, hn⟩, List.length_drop]
      · simp [h0]
    · rw [if_neg hn]
      split
      · exact (filter_map_way_of_lt (Nat.lt_of_not_le hn)).symm
      · rfl

/-- The ways through a text that is cut off are the ways through the whole of it that end before the
cut. -/
theorem ways_append (pattern : Pattern) (cs more : List Char) :
    pattern.ways cs = (pattern.ways (cs ++ more)).filter (· ≤ cs.length) := by
  induction pattern generalizing cs with
  | nothing => rfl
  | one accepts =>
    cases cs with
    | nil =>
      cases more with
      | nil => rfl
      | cons c more => cases h : accepts c <;> simp [h]
    | cons c cs => cases h : accepts c <;> simp [h]
  | seq first second ihf ihs =>
    rw [ways_seq, ways_seq, ihf cs, flatMap_filter_way, List.filter_flatMap]
    refine List.flatMap_congr fun n _ => ?_
    split
    next h =>
      rw [filter_map_way h, List.drop_append_of_le_length h, ihs (cs.drop n), List.length_drop]
    next h => exact (filter_map_way_of_lt (Nat.lt_of_not_le h)).symm
  | either first second ihf ihs => simp only [ways, List.filter_append, ← ihf, ← ihs]
  | option body ih => simp [ways, List.filter_append, ← ih]
  | many body ih => exact repeated_append ih cs

theorem le_of_mem_ways (h : n ∈ pattern.ways cs) : n ≤ cs.length := by
  rw [pattern.ways_append cs [], List.mem_filter] at h
  exact of_decide_eq_true h.2

/-- A match that ends before a cut is still the match when the text is cut. -/
theorem first?_of_append {more : List Char} (h : pattern.first? (cs ++ more) = some n)
    (hn : n ≤ cs.length) : pattern.first? cs = some n := by
  obtain ⟨others, ho⟩ := List.head?_eq_some_iff.1 h
  rw [first?, pattern.ways_append cs more, ho, List.filter_cons_of_pos (by simpa using hn)]
  rfl

theorem exists_first?_append (more : List Char) (h : pattern.first? cs = some n) :
    ∃ m, pattern.first? (cs ++ more) = some m := by
  refine Option.ne_none_iff_exists'.1 fun hnone => ?_
  rw [first?, pattern.ways_append cs more, List.head?_eq_none_iff.1 hnone] at h
  cases h

theorem repeated_le_of_avoids {body : List Char → List Nat} {c : Char} {more : List Char}
    (hbody : ∀ cs, ∀ n ∈ body (cs ++ c :: more), n ≤ cs.length) (cs : List Char) :
    ∀ n ∈ repeated body (cs ++ c :: more), n ≤ cs.length := by
  induction cs using repeated.induct with
  | case1 cs ih =>
    intro n hn
    rw [repeated, List.mem_append, List.mem_flatMap, List.mem_singleton] at hn
    obtain ⟨k, hk, hn⟩ | rfl := hn
    · have hle := hbody cs k hk
      split at hn
      next h =>
        obtain ⟨m, hm, rfl⟩ := List.mem_map.1 hn
        rw [List.drop_append_of_le_length hle] at hm
        have := ih k ⟨h.1, hle⟩ m hm
        rw [List.length_drop] at this
        omega
      · cases hn
    · exact Nat.zero_le _

theorem le_of_mem_ways_of_avoids {c : Char} {more : List Char} (h : pattern.Avoids c) :
    ∀ n ∈ pattern.ways (cs ++ c :: more), n ≤ cs.length := by
  induction pattern generalizing cs with
  | nothing => simp [ways]
  | one accepts =>
    cases cs with
    | nil =>
      rw [Avoids] at h
      simp [h]
    | cons d cs => cases h : accepts d <;> simp [h]
  | seq first second ihf ihs =>
    intro n hn
    obtain ⟨k, hk, hn⟩ := List.mem_flatMap.1 hn
    obtain ⟨m, hm, rfl⟩ := List.mem_map.1 hn
    have hle := ihf h.1 k hk
    rw [List.drop_append_of_le_length hle] at hm
    have := ihs h.2 m hm
    rw [List.length_drop] at this
    omega
  | either first second ihf ihs =>
    intro n hn
    exact (List.mem_append.1 hn).elim (ihf h.1 n) (ihs h.2 n)
  | option body ih =>
    intro n hn
    rcases List.mem_append.1 hn with hn | hn
    · exact ih h n hn
    · rw [List.mem_singleton.1 hn]
      exact Nat.zero_le _
  | many body ih => exact repeated_le_of_avoids (fun cs => ih h) cs

/-- No way leads across a character that a pattern avoids. -/
theorem ways_append_of_avoids {c : Char} (h : pattern.Avoids c) (cs more : List Char) :
    pattern.ways (cs ++ c :: more) = pattern.ways cs := by
  rw [pattern.ways_append cs (c :: more), List.filter_eq_self.2]
  exact fun n hn => decide_eq_true (le_of_mem_ways_of_avoids h n hn)

/-! ## The first way -/

theorem first?_one {accepts : Char → Bool} :
    (one accepts).first? cs = if cs.head?.any accepts then some 1 else none := by
  simp only [first?, ways]
  split <;> rfl

theorem first?_seq (hf : first.first? cs = some n) (hs : second.first? (cs.drop n) = some m) :
    (seq first second).first? cs = some (n + m) := by
  obtain ⟨others, ho⟩ := List.head?_eq_some_iff.1 hf
  obtain ⟨more, hm⟩ := List.head?_eq_some_iff.1 hs
  simp [first?, ways, ho, hm]

theorem first?_seq_eq_none (hf : first.first? cs = none) : (seq first second).first? cs = none := by
  simp [first?, ways, List.head?_eq_none_iff.1 hf]

theorem first?_option : (option body).first? cs = some ((body.first? cs).getD 0) := by
  simp only [first?, ways, List.head?_append]
  cases (body.ways cs).head? <;> rfl

theorem first?_many_of_none (h : body.first? cs = none) : (many body).first? cs = some 0 := by
  rw [first?, ways_many, List.head?_eq_none_iff.1 h]
  rfl

theorem first?_many_of_some (h : body.first? cs = some n) (hn : 0 < n)
    (hm : (many body).first? (cs.drop n) = some m) : (many body).first? cs = some (n + m) := by
  obtain ⟨others, ho⟩ := List.head?_eq_some_iff.1 h
  obtain ⟨more, hm⟩ := List.head?_eq_some_iff.1 hm
  have hle : n ≤ cs.length := le_of_mem_ways (ho ▸ List.mem_cons_self)
  rw [first?, ways_many, ho, List.flatMap_cons, if_pos ⟨hn, hle⟩, hm]
  rfl

/-- What repetitions and an end have in common with one repetition less. -/
theorem ways_seq_many : (seq (many body) second).ways cs = (body.ways cs).flatMap (fun n =>
    if 0 < n ∧ n ≤ cs.length then ((seq (many body) second).ways (cs.drop n)).map (n + ·)
    else []) ++ second.ways cs := by
  rw [ways_seq, ways_many, List.flatMap_append, List.flatMap_assoc]
  congr 1
  · refine List.flatMap_congr fun n _ => ?_
    split
    · simp only [List.flatMap_map, ways_seq, List.map_flatMap, List.map_map, List.drop_drop]
      refine List.flatMap_congr fun m _ => List.map_congr_left fun k _ => ?_
      exact Nat.add_assoc n m k
    · rfl
  · simp

theorem first?_many_one (accepts : Char → Bool) (cs : List Char) :
    (many (one accepts)).first? cs = some (cs.takeWhile accepts).length := by
  induction cs with
  | nil => exact first?_many_of_none (by simp [first?_one])
  | cons c cs ih =>
    cases hc : accepts c with
    | false =>
      rw [List.takeWhile_cons_of_neg (by simp [hc])]
      exact first?_many_of_none (by simp [first?_one, hc])
    | true =>
      rw [List.takeWhile_cons_of_pos hc, List.length_cons, Nat.add_comm]
      exact first?_many_of_some (by simp [first?_one, hc]) Nat.one_pos ih

theorem first?_plus_one (accepts : Char → Bool) (cs : List Char) :
    (plus (one accepts)).first? cs = Lexer.positive (cs.takeWhile accepts).length := by
  cases cs with
  | nil => rfl
  | cons c cs =>
    cases hc : accepts c with
    | false =>
      rw [List.takeWhile_cons_of_neg (by simp [hc])]
      exact first?_seq_eq_none (by simp [first?_one, hc])
    | true =>
      rw [List.takeWhile_cons_of_pos hc, List.length_cons, Lexer.positive,
        if_neg (Nat.succ_ne_zero _), Nat.add_comm]
      exact first?_seq (by simp [first?_one, hc]) (first?_many_one accepts cs)

theorem ways_literal (spelling cs : List Char) :
    (literal spelling).ways cs = if spelling.isPrefixOf cs then [spelling.length] else [] := by
  induction spelling generalizing cs with
  | nil => simp [literal, ways]
  | cons c spelling ih =>
    cases cs with
    | nil => simp [literal, ways]
    | cons d cs =>
      rw [literal, ways_seq, ways_one_cons, List.isPrefixOf_cons_cons]
      by_cases hc : d = c
      · cases hs : spelling.isPrefixOf cs <;>
          simp [-List.isPrefixOf_iff_prefix, hc, hs, ih, Nat.add_comm]
      · simp [-List.isPrefixOf_iff_prefix, hc, Ne.symm hc]

end Pattern

end MuLang
