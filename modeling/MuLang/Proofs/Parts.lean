import MuLang.Proofs.Spelling

/-!
# The parts of a loop's head

The head of a loop is cut at its commas outside of parentheses. How some tokens of it are cut depends
on what stands before them by one number alone: how many parentheses are open there.
-/
namespace MuLang

variable {tokens more last first : List Token} {parts rest : List (List Token)} {depth : Nat}
  {token : Token}

/-- How many parentheses are open after a token, if one that closes nothing is passed over. -/
def Token.parensAfter (depth : Nat) (token : Token) : Nat :=
  match token.kind with
  | .openParen => depth + 1
  | .closeParen => depth - 1
  | _ => depth

/-- Tokens that neither open nor close a parenthesis and separate nothing. -/
def Token.Flat (tokens : List Token) : Prop :=
  ∀ token ∈ tokens, token.kind ≠ .openParen ∧ token.kind ≠ .closeParen ∧ token.kind ≠ .comma

theorem Token.parensAfter_other (ho : token.kind ≠ .openParen) (hc : token.kind ≠ .closeParen)
    (depth : Nat) : token.parensAfter depth = depth := by
  unfold parensAfter
  split <;> first | contradiction | rfl

/-- The more parentheses are open before some tokens, the more are after them. -/
theorem Token.foldl_parensAfter_le {around : Nat} (hd : depth ≤ around) (tokens : List Token) :
    tokens.foldl parensAfter depth ≤ tokens.foldl parensAfter around := by
  induction tokens generalizing depth around with
  | nil => exact hd
  | cons token tokens ih =>
    refine ih ?_
    unfold parensAfter
    split <;> omega

namespace Step

theorem headParts_comma (hk : token.kind = .comma) (tokens : List Token) :
    headParts 0 (token :: tokens) = [] :: headParts 0 tokens := by
  rw [headParts, if_pos ⟨hk, rfl⟩]

theorem headParts_ne_nil (depth : Nat) (tokens : List Token) : headParts depth tokens ≠ [] := by
  fun_induction headParts depth tokens <;> simp

/-- A token that does not separate belongs to the first of the parts after it. -/
theorem headParts_cons (hk : ¬(token.kind = .comma ∧ depth = 0))
    (h : headParts (token.parensAfter depth) tokens = first :: rest) :
    headParts depth (token :: tokens) = (token :: first) :: rest := by
  rw [headParts, if_neg hk]
  dsimp only
  split
  next hn => exact absurd hn (headParts_ne_nil _ tokens)
  next part parts hp =>
    obtain ⟨rfl, rfl⟩ := List.cons.inj (hp.symm.trans h)
    rfl

theorem exists_headParts (depth : Nat) (tokens : List Token) :
    ∃ first rest, headParts depth tokens = first :: rest :=
  List.exists_cons_of_ne_nil (headParts_ne_nil depth tokens)

/-- The first part is all of the tokens, or ends at a comma at which no parenthesis is open. -/
theorem headParts_cases (h : headParts depth tokens = first :: rest) :
    (tokens = first ∧ rest = []) ∨ ∃ comma more, tokens = first ++ comma :: more ∧
      comma.kind = .comma ∧ first.foldl Token.parensAfter depth = 0 ∧ headParts 0 more = rest := by
  induction tokens generalizing depth first rest with
  | nil =>
    obtain ⟨rfl, rfl⟩ := List.cons.inj h
    exact .inl ⟨rfl, rfl⟩
  | cons token tokens ih =>
    by_cases hc : token.kind = .comma ∧ depth = 0
    · obtain ⟨hk, rfl⟩ := hc
      rw [headParts_comma hk] at h
      obtain ⟨rfl, rfl⟩ := List.cons.inj h
      exact .inr ⟨token, tokens, rfl, hk, rfl, rfl⟩
    · obtain ⟨part, others, hp⟩ := exists_headParts (token.parensAfter depth) tokens
      rw [headParts_cons hc hp] at h
      obtain ⟨rfl, rfl⟩ := List.cons.inj h
      obtain ⟨rfl, rfl⟩ | ⟨comma, more, rfl, hk, hd, hm⟩ := ih hp
      · exact .inl ⟨rfl, rfl⟩
      · exact .inr ⟨comma, more, rfl, hk, hd, hm⟩

/-- The last part of some tokens goes on with the first part of those after them. -/
theorem headParts_append (h : headParts depth tokens = parts ++ [last])
    (hm : headParts (tokens.foldl Token.parensAfter depth) more = first :: rest) :
    headParts depth (tokens ++ more) = parts ++ (last ++ first) :: rest := by
  induction tokens generalizing depth parts last with
  | nil =>
    rw [headParts] at h
    obtain ⟨rfl, hl⟩ := @List.append_inj' _ [] _ _ _ h rfl
    obtain rfl := List.singleton_inj.1 hl
    exact hm
  | cons token tokens ih =>
    by_cases hc : token.kind = .comma ∧ depth = 0
    · obtain ⟨hk, rfl⟩ := hc
      rw [headParts_comma hk] at h
      cases parts with
      | nil => exact absurd (List.cons.inj h).2 (headParts_ne_nil 0 tokens)
      | cons part parts =>
        obtain ⟨rfl, hrest⟩ := List.cons.inj h
        have hzero : token.parensAfter 0 = 0 := by simp [Token.parensAfter, hk]
        rw [List.foldl_cons, hzero] at hm
        rw [List.cons_append, headParts_comma hk, ih hrest hm]
        rfl
    · obtain ⟨part, others, hp⟩ := exists_headParts (token.parensAfter depth) tokens
      rw [headParts_cons hc hp] at h
      cases parts with
      | nil =>
        obtain ⟨rfl, rfl⟩ := List.cons.inj h
        have hnil : [part] = [] ++ [part] := rfl
        exact headParts_cons hc (ih (hp.trans hnil) hm)
      | cons other parts =>
        obtain ⟨rfl, rfl⟩ := List.cons.inj h
        have hcons : part :: (parts ++ [last]) = (part :: parts) ++ [last] := rfl
        exact headParts_cons hc (ih (hp.trans hcons) hm)

/-- At a comma where no parenthesis is open, the parts before it end. -/
theorem headParts_append_comma (hk : token.kind = .comma)
    (hd : tokens.foldl Token.parensAfter depth = 0) (more : List Token) :
    headParts depth (tokens ++ token :: more) = headParts depth tokens ++ headParts 0 more := by
  obtain ⟨parts, last, hp⟩ : ∃ parts last, headParts depth tokens = parts ++ [last] :=
    ⟨_, _, (List.dropLast_concat_getLast (headParts_ne_nil depth tokens)).symm⟩
  have hrest : headParts (tokens.foldl Token.parensAfter depth) (token :: more) =
      [] :: headParts 0 more := by
    rw [hd, headParts_comma hk]
  rw [headParts_append hp hrest, hp, List.append_nil, List.append_assoc, List.singleton_append]

theorem headParts_ne_singleton (hk : token.kind = .comma)
    (hd : tokens.foldl Token.parensAfter depth = 0) (more part : List Token) :
    headParts depth (tokens ++ token :: more) ≠ [part] := by
  rw [headParts_append_comma hk hd]
  intro h
  obtain ⟨first, rest, hfirst⟩ := exists_headParts depth tokens
  rw [hfirst] at h
  exact headParts_ne_nil 0 more (List.append_eq_nil_iff.1 (List.cons.inj h).2).2

/-- Where nothing is cut off, nothing is with more parentheses open. -/
theorem headParts_of_le {around : Nat} (hd : depth ≤ around)
    (h : headParts depth tokens = [tokens]) : headParts around tokens = [tokens] := by
  obtain ⟨first, rest, hp⟩ := exists_headParts around tokens
  obtain ⟨rfl, rfl⟩ | ⟨comma, more, rfl, hk, hz, -⟩ := headParts_cases hp
  · exact hp
  · have hle := Token.foldl_parensAfter_le hd first
    exact absurd h (headParts_ne_singleton hk (Nat.le_zero.1 (hz ▸ hle)) more _)

theorem headParts_of_flat (h : Token.Flat tokens) : headParts depth tokens = [tokens] := by
  induction tokens with
  | nil => rfl
  | cons token tokens ih =>
    obtain ⟨⟨ho, hc, hn⟩, hr⟩ := List.forall_mem_cons.1 h
    refine headParts_cons (fun hk => hn hk.1) ?_
    rw [Token.parensAfter_other ho hc, ih hr]

/-- Flat tokens at the end of a head belong to its last part, which other flat tokens could take
their place in. -/
theorem headParts_append_flat (parts : List (List Token)) (hf : Token.Flat more) (hl : Token.Flat last)
    (h : headParts depth (tokens ++ more) = parts ++ [more]) :
    headParts depth (tokens ++ last) = parts ++ [last] := by
  obtain ⟨front, part, hp⟩ : ∃ front part, headParts depth tokens = front ++ [part] :=
    ⟨_, _, (List.dropLast_concat_getLast (headParts_ne_nil depth tokens)).symm⟩
  rw [headParts_append hp (headParts_of_flat hf)] at h
  obtain ⟨rfl, hpart⟩ := List.append_inj' h rfl
  obtain rfl : part = [] := List.append_left_eq_self.1 (List.singleton_inj.1 hpart)
  rw [headParts_append hp (headParts_of_flat hl), List.nil_append]

/-- Commas stand between the three parts of a head. -/
theorem commas_of_headParts {comma next : Token} {init test step : List Token}
    (h : headParts depth (init ++ comma :: (test ++ next :: step)) = [init, test, step]) :
    comma.kind = .comma ∧ next.kind = .comma := by
  have hparted := parted_headParts depth (init ++ comma :: (test ++ next :: step))
  rw [h] at hparted
  generalize htokens : init ++ comma :: (test ++ next :: step) = tokens at hparted
  cases hparted with
  | next hc hp =>
    cases hp with
    | next hn hp =>
      cases hp with
      | last =>
        obtain ⟨rfl, hrest⟩ := List.cons.inj (List.append_cancel_left htokens)
        obtain ⟨rfl, -⟩ := List.cons.inj (List.append_cancel_left hrest)
        exact ⟨hc, hn⟩
      | next _ hp => cases hp

/-! ## The parts of a loop -/

/-- The tokens of `NAME < (LIMIT)`. -/
def comparison (counter : Token) (limit : List Token) : List Token :=
  counter :: .synthetic (.binary .less) "<" :: .synthetic .openParen "(" ::
    (limit ++ [.synthetic .closeParen ")"])

/-- The tokens of `NAME++`. -/
def increment (counter : Token) : List Token := [counter, .synthetic .plusPlus "++"]

/-- The declaration, the condition and the step that a loop is read from, given the parts of its
head. -/
inductive Divides : List (List Token) → List Token → List Token → List Token → Prop
  | written {init test step : List Token} : Divides [init, test, step] init test step
  | arrow {init limit : List Token} {counter arrow : Token} : counter.kind = .identifier →
      arrow.kind = .arrow → limit ≠ [] →
      Divides [init, counter :: arrow :: limit] init (comparison counter limit) (increment counter)

variable {keyword opening : Token} {modifiers init test step : List Token}

/-- A head that divides into the parts of a loop is read as the loop. -/
theorem forStatement_of_divides (h : Divides (headParts 0 tokens) init test step) :
    forStatement (keyword :: (tokens ++ [opening])) modifiers = (do
      rejectModifiers modifiers
      requireFunction keyword "for loops"
      changeScopes (·.push .loopHeader)
      loopStatement keyword init test step) := by
  simp only [forStatement, Token.tokenAt, List.getElem?_cons_zero, ofExcept, pure_bind,
    Token.inner_cons_append]
  generalize headParts 0 tokens = parts at h
  cases h with
  | written => rfl
  | arrow hc ha hn =>
    simp only [hc, ha, ne_eq, hn, not_false_eq_true, and_self, if_true]
    rfl

/-- A head that is accepted divides into the parts of a loop. -/
theorem exists_divides {s t : Session} {result : Option Stmt}
    (h : forStatement (keyword :: (tokens ++ [opening])) modifiers s = (.ok result, t)) :
    modifiers = [] ∧ s.scopes.inFunction ∧ ∃ init test step,
      Divides (headParts 0 tokens) init test step ∧ loopStatement keyword init test step
        { s with scopes := s.scopes.push .loopHeader } = (.ok result, t) := by
  simp [forStatement, Token.tokenAt, and_assoc] at h
  obtain ⟨rfl, hf, h⟩ := h
  refine ⟨rfl, hf, ?_⟩
  generalize headParts 0 tokens = parts at h
  split at h
  next init test step => exact ⟨init, test, step, .written, h⟩
  next init transition =>
    split at h
    next counter arrow limit =>
      simp at h
      obtain ⟨⟨hc, ha, hn⟩, h⟩ := h
      exact ⟨init, _, _, .arrow hc ha hn, h⟩
    next => exact absurd h (by simp)
  next => exact absurd h (by simp)

end Step

end MuLang
