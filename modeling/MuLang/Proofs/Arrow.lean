import MuLang.Proofs.Increments
import MuLang.Proofs.Openings
import MuLang.Proofs.Parentheses

/-!
# The arrow form of a loop

`for INIT, NAME -> LIMIT` and `for INIT, NAME < (LIMIT), NAME++` are interchangeable: either they are
read as the same loop, or neither of them is accepted.
-/
namespace MuLang

namespace Token

variable {tokens : List Token} {depth after : Nat}

/-- Where every parenthesis that is closed is open, none is passed over. -/
theorem foldl_parensAfter (h : openParens depth tokens = some after) :
    tokens.foldl parensAfter depth = after := by
  induction tokens generalizing depth with
  | nil => exact Option.some.inj h
  | cons token tokens ih =>
    rw [openParens] at h
    rw [List.foldl_cons]
    split at h
    next hk => simpa only [parensAfter, hk] using ih h
    next hk =>
      split at h
      · cases h
      · simpa only [parensAfter, hk] using ih h
    next ho hc =>
      rw [parensAfter_other ho hc]
      exact ih h

/-- Once a parenthesis is closed that is not open, it makes no difference whether one more has been
open before. -/
theorem foldl_parensAfter_of_stray (h : openParens depth tokens = none) :
    tokens.foldl parensAfter (depth + 1) = tokens.foldl parensAfter depth := by
  induction tokens generalizing depth with
  | nil => cases h
  | cons token tokens ih =>
    rw [openParens] at h
    rw [List.foldl_cons, List.foldl_cons]
    split at h
    next hk => simpa only [parensAfter, hk] using ih h
    next hk =>
      split at h
      next hd => simp [parensAfter, hk, hd]
      next hd =>
        have hpred : depth - 1 + 1 = depth := by omega
        have hrest := ih h
        rw [hpred] at hrest
        simpa only [parensAfter, hk, Nat.add_sub_cancel] using hrest
    next ho hc =>
      rw [parensAfter_other ho hc, parensAfter_other ho hc]
      exact ih h

end Token

/-! ## What is accepted -/

namespace Step

variable {s t : Session} {first stop keyword counter arrow comma next opening context : Token}
  {rest init test step limit modifiers : List Token}

/-- An action is a name with a sign, or it is made of tokens of expressions. -/
theorem inExpression_of_action {result : Option Action} (hs : s.isSkimming = false)
    (h : actionStatement (first :: (rest ++ [stop])) [] s = (.ok result, t)) :
    (∃ sign, rest = [sign]) ∨ ∀ token ∈ rest, token.kind.inExpression := by
  cases rest with
  | nil => exact .inr nofun
  | cons next rest =>
    simp [actionStatement, Token.tokenAt, and_assoc] at h
    obtain ⟨-, h⟩ := h
    generalize hk : next.kind = kind at h
    split at h
    · simp [hs, List.dropLast, and_assoc] at h
      obtain ⟨value, scopes, hx, -⟩ := h
      exact .inr (List.forall_mem_cons.1 (Env.closing_of_expression hx).kinds).2
    · simp [Token.expectEnd] at h
      exact .inl ⟨next, by rw [h.1]⟩
    · simp [Token.expectEnd] at h
      exact .inl ⟨next, by rw [h.1]⟩
    · simp [hs, Token.valueFrom, and_assoc] at h
      obtain ⟨value, scopes, hx, -⟩ := h
      exact .inr (List.forall_mem_cons.2 ⟨by rw [hk]; rfl, (Env.closing_of_expression hx).kinds⟩)
    · exact absurd h (by simp)

/-- In a loop that is accepted the condition has no fault, and after the name that it begins with the
step has a sign or tokens of expressions. -/
theorem of_loopStatement {result : Option Stmt} (hs : s.isSkimming = false)
    (h : loopStatement keyword init test step s = (.ok result, t)) :
    (Term.ofTokens test keyword).Faultless ∧
      ∀ first rest, step = first :: rest →
        (∃ sign, rest = [sign]) ∨ ∀ token ∈ rest, token.kind.inExpression := by
  obtain ⟨header, value, condition, action, declared, tested, acted, -, hx, -, -, -, -, hd, after, ha⟩ :=
    evaluate_loopStatement hs h
  refine ⟨Term.faultless_of_check hx, ?_⟩
  rintro first rest rfl
  exact inExpression_of_action (by exact hd) ha

/-! ## Limits -/

/-- Tokens that stay together between two parentheses: no comma cuts them, and they close no
parenthesis but their own. -/
structure Enclosed (limit : List Token) : Prop where
  uncut : headParts 0 limit = [limit]
  parens : Token.openParens 1 limit = some 1

/-- In a comparison without a fault the limit leaves open what has been opened around it. -/
theorem openParens_of_comparison (hk : counter.kind = .identifier)
    (h : (Term.ofTokens (comparison counter limit) context).Faultless) :
    Token.openParens 1 limit = some 1 := by
  have hp := (Term.closing_of_faultless h).parens
  rw [comparison, Token.openParens_word (Token.isWord_of_kind hk rfl), Token.openParens_word rfl,
    Token.openParens_opening rfl, Token.openParens_append] at hp
  obtain ⟨after, hl, hc⟩ := Option.bind_eq_some_iff.1 hp
  cases after with
  | zero => cases hc
  | succ after =>
    rw [Token.openParens_closing rfl] at hc
    obtain rfl : after = 0 := Option.some.inj hc
    exact hl

variable {result : Option Stmt}

/-- The declaration of a loop is a part of its own. -/
theorem headParts_init (hp : Token.Balanced init) (hu : headParts 0 init = [init])
    (hk : comma.kind = .comma) (tokens : List Token) :
    headParts 0 (init ++ comma :: tokens) = init :: headParts 0 tokens := by
  rw [headParts_append_comma hk (Token.foldl_parensAfter hp), hu, List.singleton_append]

/-- Where a loop in its arrow form is accepted, its limit stays together between parentheses. -/
theorem enclosed_of_arrow (hs : s.isSkimming = false) (hp : Token.Balanced init)
    (hu : headParts 0 init = [init]) (hk : comma.kind = .comma) (hc : counter.kind = .identifier)
    (ha : arrow.kind = .arrow)
    (h : forStatement (keyword :: (init ++ comma :: counter :: arrow :: limit ++ [opening])) modifiers s =
      (.ok result, t)) : Enclosed limit := by
  obtain ⟨-, -, first, test, step, hd, hloop⟩ := exists_divides h
  obtain ⟨hfaultless, -⟩ := of_loopStatement (by exact hs) hloop
  obtain ⟨part, parts, hparts⟩ := exists_headParts 0 limit
  have hhead : headParts 0 (counter :: arrow :: limit) = (counter :: arrow :: part) :: parts := by
    refine headParts_cons (by simp [hc]) ?_
    rw [Token.parensAfter_other (by simp [hc]) (by simp [hc])]
    refine headParts_cons (by simp [ha]) ?_
    rwa [Token.parensAfter_other (by simp [ha]) (by simp [ha])]
  rw [headParts_init hp hu hk, hhead] at hd
  cases hd with
  | written =>
    -- No expression holds the arrow.
    have harrow := (Term.closing_of_faultless hfaultless).kinds arrow (.tail _ (.head _))
    rw [ha] at harrow
    cases harrow
  | arrow _ _ hn =>
    obtain ⟨rfl, -⟩ | ⟨_, more, -, -, -, hmore⟩ := headParts_cases hparts
    · exact ⟨hparts, openParens_of_comparison hc hfaultless⟩
    · exact absurd hmore (headParts_ne_nil 0 more)

/-- A comma in the limit of a comparison without a fault does not cut the head of the loop. -/
theorem uncut_of_comparison (hk : counter.kind = .identifier)
    (hu : headParts 0 (comparison counter limit) = [comparison counter limit])
    (h : (Term.ofTokens (comparison counter limit) context).Faultless) :
    headParts 0 limit = [limit] := by
  obtain ⟨first, rest, hparts⟩ := exists_headParts 0 limit
  obtain ⟨rfl, rfl⟩ | ⟨comma, more, rfl, hc, hz, -⟩ := headParts_cases hparts
  · exact hparts
  · -- The comma stands directly inside of the group around the limit.
    have hcomparison : comparison counter (first ++ comma :: more) =
        counter :: .synthetic (.binary .less) "<" :: .synthetic .openParen "(" ::
          (first ++ comma :: (more ++ [.synthetic .closeParen ")"])) := by
      simp [comparison]
    have hone : first.foldl Token.parensAfter 1 ≠ 0 := by
      intro hone
      have hprefix : (counter :: .synthetic (.binary .less) "<" :: .synthetic .openParen "(" ::
          first).foldl Token.parensAfter 0 = 0 := by
        rw [List.foldl_cons, Token.parensAfter_other (by simp [hk]) (by simp [hk])]
        exact hone
      rw [hcomparison] at hu
      exact headParts_ne_singleton hc hprefix _ _ hu
    have hbalanced : Token.Balanced first := by
      cases ho : Token.openParens 0 first with
      | none => exact absurd ((Token.foldl_parensAfter_of_stray ho).trans hz) hone
      | some after =>
        obtain rfl : 0 = after := hz.symm.trans (Token.foldl_parensAfter ho)
        exact ho
    have hread : Term.ofTokens (comparison counter (first ++ comma :: more)) context = _ :=
      @Term.ofTokens_binary counter _ .less hk rfl (.synthetic .openParen "(" :: (first ++ comma :: more))
        _ context
    rw [hread, List.cons_append, List.append_assoc, List.cons_append] at h
    exact absurd h (Term.not_faultless_comma rfl hc hbalanced)

/-- What a comma cuts off is the sign of the counter, or more than that. -/
theorem cut_cases {cut : Token} {tokens : List Token} (hc : counter.kind = .identifier)
    (hk : cut.kind = .comma) (h : tokens ++ next :: increment counter = test ++ cut :: step) :
    (test = tokens ∧ step = increment counter) ∨ ∃ left, step = left ++ next :: increment counter := by
  obtain ⟨left, rfl, hleft⟩ | ⟨left, rfl, hleft⟩ := List.append_eq_append_iff.1 h
  · rcases left with _ | ⟨first, _ | ⟨second, _ | ⟨third, left⟩⟩⟩
    · obtain ⟨-, rfl⟩ := List.cons.inj hleft
      exact .inl ⟨List.append_nil _, rfl⟩
    · obtain ⟨rfl, -⟩ := List.cons.inj (List.cons.inj hleft).2
      exact absurd hk (by simp [hc])
    · obtain ⟨rfl, -⟩ := List.cons.inj (List.cons.inj (List.cons.inj hleft).2).2
      cases hk
    · simp [increment] at hleft
  · cases left with
    | nil =>
      obtain ⟨-, rfl⟩ := List.cons.inj hleft
      exact .inl ⟨(List.append_nil _).symm, rfl⟩
    | cons first left => exact .inr ⟨left, (List.cons.inj hleft).2⟩

/-- What ends in a comma and a counter with its sign is no step of a loop. -/
theorem not_action_of_increment {left : List Token} : ¬∀ first rest,
    left ++ next :: increment counter = first :: rest →
      (∃ sign, rest = [sign]) ∨ ∀ token ∈ rest, token.kind.inExpression := by
  intro h
  obtain ⟨first, rest, he, hlength, hsign⟩ : ∃ first rest,
      left ++ next :: increment counter = first :: rest ∧ 2 ≤ rest.length ∧
        .synthetic .plusPlus "++" ∈ rest := by
    cases left with
    | nil => exact ⟨next, _, rfl, Nat.le_refl 2, by simp [increment]⟩
    | cons first left => exact ⟨first, _, rfl, by simp [increment], by simp [increment]⟩
  obtain ⟨sign, rfl⟩ | hrest := h first rest he
  · simp at hlength
  · cases hrest _ hsign

/-- Where a loop in its long form is accepted, its limit stays together between parentheses. -/
theorem enclosed_of_unfolded (hs : s.isSkimming = false) (hp : Token.Balanced init)
    (hu : headParts 0 init = [init]) (hk : comma.kind = .comma) (hc : counter.kind = .identifier)
    (hn : next.kind = .comma)
    (h : forStatement (keyword :: (init ++ comma :: (comparison counter limit ++
      next :: increment counter) ++ [opening])) modifiers s = (.ok result, t)) : Enclosed limit := by
  obtain ⟨-, -, first, test, step, hd, hloop⟩ := exists_divides h
  obtain ⟨hfaultless, haction⟩ := of_loopStatement (by exact hs) hloop
  rw [headParts_init hp hu hk] at hd
  generalize hparts : headParts 0 (comparison counter limit ++ next :: increment counter) = parts at hd
  cases hd with
  | written =>
    obtain ⟨-, hrest⟩ | ⟨cut, more, htokens, hcut, hz, hmore⟩ := headParts_cases hparts
    · cases hrest
    · obtain ⟨rfl, -⟩ | ⟨_, last, -, -, -, hlast⟩ := headParts_cases hmore
      · obtain ⟨rfl, rfl⟩ | ⟨left, rfl⟩ := cut_cases hc hcut htokens
        · rw [headParts_append_comma hn hz, hmore] at hparts
          exact ⟨uncut_of_comparison hc (List.append_cancel_right hparts) hfaultless,
            openParens_of_comparison hc hfaultless⟩
        · exact absurd haction not_action_of_increment
      · exact absurd hlast (headParts_ne_nil 0 last)
  | arrow _ ha _ =>
    -- The second token is no arrow.
    obtain ⟨htokens, -⟩ | ⟨_, more, -, -, -, hmore⟩ := headParts_cases hparts
    · obtain ⟨rfl, -⟩ := List.cons.inj (List.cons.inj htokens).2
      cases ha
    · exact absurd hmore (headParts_ne_nil 0 more)

/-! ## One loop in both forms -/

/-- Between parentheses a limit that stays together is a part of the head with them. -/
theorem Enclosed.headParts_comparison (h : Enclosed limit) (hc : counter.kind = .identifier)
    (hn : next.kind = .comma) :
    headParts 0 (comparison counter limit ++ next :: increment counter) =
      [comparison counter limit, increment counter] := by
  have hone : limit.foldl Token.parensAfter 1 = 1 := Token.foldl_parensAfter h.parens
  have hcounter : counter.parensAfter 0 = 0 :=
    Token.parensAfter_other (by simp [hc]) (by simp [hc]) 0
  have hzero : (comparison counter limit).foldl Token.parensAfter 0 = 0 := by
    have hless : (Token.synthetic (.binary .less) "<").parensAfter 0 = 0 := rfl
    have hopening : (Token.synthetic .openParen "(").parensAfter 0 = 1 := rfl
    have hclosing : (Token.synthetic .closeParen ")").parensAfter 1 = 0 := rfl
    simp [comparison, hcounter, hless, hopening, hone, hclosing]
  have hlimit : headParts 1 (limit ++ [.synthetic .closeParen ")"]) =
      [limit ++ [.synthetic .closeParen ")"]] := by
    have hinside : headParts 1 limit = [] ++ [limit] := headParts_of_le (Nat.zero_le 1) h.uncut
    have hend : headParts (limit.foldl Token.parensAfter 1) [.synthetic .closeParen ")"] =
        [[.synthetic .closeParen ")"]] := by
      rw [hone]
      rfl
    exact headParts_append hinside hend
  have hcomparison : headParts 0 (comparison counter limit) = [comparison counter limit] := by
    refine headParts_cons (by simp [hc]) ?_
    rw [hcounter]
    exact headParts_cons (by decide) (headParts_cons (by decide) hlimit)
  have hincrement : headParts 0 (increment counter) = [increment counter] := by
    refine headParts_cons (by simp [hc]) ?_
    rw [hcounter]
    rfl
  rw [headParts_append_comma hn hzero, hcomparison, hincrement, List.singleton_append]

/-- A loop whose limit stays together is the same in both forms. -/
theorem Enclosed.forStatement_eq (h : Enclosed limit) (hp : Token.Balanced init)
    (hu : headParts 0 init = [init]) (hk : comma.kind = .comma) (hc : counter.kind = .identifier)
    (ha : arrow.kind = .arrow) (hl : limit ≠ []) (hn : next.kind = .comma) (modifiers : List Token) :
    forStatement ((keyword :: (init ++ comma :: counter :: arrow :: limit ++ [opening])).map
        Token.stripped) modifiers =
      forStatement ((keyword :: (init ++ comma :: (comparison counter limit ++
        next :: increment counter) ++ [opening])).map Token.stripped) modifiers := by
  have hshort : headParts 0 (init ++ comma :: counter :: arrow :: limit) =
      [init, counter :: arrow :: limit] := by
    rw [headParts_init hp hu hk]
    refine congrArg (init :: ·) (headParts_cons (by simp [hc]) ?_)
    rw [Token.parensAfter_other (by simp [hc]) (by simp [hc])]
    refine headParts_cons (by simp [ha]) ?_
    rw [Token.parensAfter_other (by simp [ha]) (by simp [ha]), h.uncut]
  have hlong : headParts 0 (init ++ comma :: (comparison counter limit ++
      next :: increment counter)) = [init, comparison counter limit, increment counter] := by
    rw [headParts_init hp hu hk, h.headParts_comparison hc hn]
  have hfor {head init test step : List Token}
      (hd : Divides ((headParts 0 head).map (List.map Token.stripped)) init test step) :
      forStatement ((keyword :: (head ++ [opening])).map Token.stripped) modifiers = (do
        rejectModifiers modifiers
        requireFunction keyword.stripped "for loops"
        changeScopes (·.push .loopHeader)
        loopStatement keyword.stripped init test step) := by
    rw [← Shadows.headParts_stripped] at hd
    rw [List.map_cons, List.map_append]
    exact forStatement_of_divides hd
  have hcomparison : (comparison counter limit).map Token.stripped =
      comparison counter.stripped (limit.map Token.stripped) := by
    simp only [comparison, List.map_cons, List.map_append, List.map_nil]
    rfl
  have harrow : Divides ([init, counter :: arrow :: limit].map (List.map Token.stripped))
      (init.map Token.stripped) (comparison counter.stripped (limit.map Token.stripped))
      (increment counter.stripped) :=
    @Divides.arrow _ _ counter.stripped arrow.stripped hc ha (by simpa using hl)
  have hwritten : Divides ([init, comparison counter limit, increment counter].map
      (List.map Token.stripped)) (init.map Token.stripped)
      (comparison counter.stripped (limit.map Token.stripped)) (increment counter.stripped) := by
    rw [← hcomparison]
    exact .written
  rw [hfor (hshort ▸ harrow), hfor (hlong ▸ hwritten)]

end Step

/-! ## Whole programs -/

/-- Two outcomes that are the same for whoever asks for a program: both have the same statements and
the same table but for places, or both have errors. -/
def Analysis.Interchangeable :
    Except (List Error) Analysis → Except (List Error) Analysis → Prop
  | .ok analysis, .ok other =>
    Stmt.sameAll analysis.program other.program ∧ analysis.symbols.same other.symbols
  | .error _, .error _ => True
  | _, _ => False

theorem Analysis.Agree.interchangeable {first second : Except (List Error) Analysis}
    (h : Agree first second) : Interchangeable first second := by
  cases first <;> cases second <;> first | exact h | trivial

namespace Token

/-- A loop in its arrow form is written in its long form, wherever the tokens of the text stand
then. -/
inductive Unfolds : List Token → List Token → Prop
  | head {before modifiers init limit after others : List Token}
      {keyword comma counter arrow next opening : Token} : Ended before → AreModifiers modifiers →
      keyword.kind = .keyword .forWord → Unbroken init → Balanced init →
      Step.headParts 0 init = [init] → comma.kind = .comma → counter.kind = .identifier →
      arrow.kind = .arrow → limit ≠ [] → Unbroken limit → next.kind = .comma →
      opening.kind = .openCurly →
      others.map toLexeme = (before ++ (modifiers ++ keyword :: (init ++ comma ::
        (Step.comparison counter limit ++ next :: Step.increment counter) ++
          opening :: after))).map toLexeme →
      Unfolds (before ++ (modifiers ++ keyword :: (init ++ comma :: counter :: arrow :: limit ++
        opening :: after))) others

/-- No pass gets to what stands after the end of the file. -/
theorem ReadAlike.of_endOfFile {before : List Token} (h : ∃ token ∈ before, token.kind = .endOfFile)
    (tokens others : List Token) : ReadAlike (before ++ tokens) (before ++ others) := by
  obtain ⟨token, hm, hk⟩ := h
  intro session pass
  rw [List.map_append, List.map_append]
  refine Reading.steps_append_congr fun later hp => ?_
  exact absurd hk (hp.no_end token.stripped (List.mem_map_of_mem hm))

end Token

/-- In a program that is accepted the second pass accepts the head of a loop. -/
theorem exists_forStatement_of_analyze {settings : Settings} {natives : Native.Bindings}
    {before modifiers head after : List Token} {keyword opening : Token} {analysis : Analysis}
    (hb : settings.maxErrors ≠ some 0)
    (h : analyze settings natives (before ++ (modifiers ++ keyword :: (head ++ opening :: after))) =
      .ok analysis)
    (hend : ∀ token ∈ before, token.kind ≠ .endOfFile) (he : Token.Ended before)
    (hm : Token.AreModifiers modifiers) (hk : keyword.kind = .keyword .forWord)
    (hw : Token.Unbroken head) (ho : opening.kind = .openCurly) :
    ∃ s result t, s.isSkimming = false ∧
      Step.forStatement (keyword :: (head ++ [opening])) modifiers s = (.ok result, t) := by
  have hsplit : before ++ (modifiers ++ keyword :: (head ++ opening :: after)) =
      before ++ ((modifiers ++ keyword :: head) ++ opening :: after) := by simp
  have hunbroken : Token.Unbroken (modifiers ++ keyword :: head) :=
    List.forall_mem_append.2 ⟨hm.unbroken, List.forall_mem_cons.2 ⟨by rw [hk]; rfl, hw⟩⟩
  rw [hsplit] at h
  obtain ⟨reading, owner, t, hp, hr, -⟩ :=
    exists_owner_of_parse hb (analyze_eq_ok.1 h).1 hend he hunbroken ho
  rw [List.append_assoc, List.cons_append, Step.owner_for hm hk] at hr
  obtain ⟨result, hresult, -⟩ := Fallible.map_eq_ok.1 hr
  exact ⟨_, result, t, hp.isSkimming_eq, hresult⟩

/-- The two forms of a loop are interchangeable: whatever the tokens of the limit are, a program with
`for INIT, NAME -> LIMIT` is accepted if and only if it is with `for INIT, NAME < (LIMIT), NAME++`,
and then it has the same statements and the same table. -/
theorem analyze_unfolded {settings : Settings} {natives : Native.Bindings}
    {tokens others : List Token} (hb : settings.maxErrors ≠ some 0)
    (h : Token.Unfolds tokens others) : Analysis.Interchangeable (analyze settings natives tokens)
      (analyze settings natives others) := by
  obtain @⟨before, modifiers, init, limit, after, _, keyword, comma, counter, arrow, next, opening,
    he, hm, hk, hi, hp, hu, hcomma, hc, ha, hl, hlimit, hn, ho, hsame⟩ := h
  have hsigns : comma.kind.isBreak = false ∧ counter.kind.isBreak = false ∧
      arrow.kind.isBreak = false ∧ next.kind.isBreak = false := by
    simp [hcomma, hc, ha, hn, Kind.isBreak]
  have hshort : Token.Unbroken (init ++ comma :: counter :: arrow :: limit) := by
    simp only [Token.Unbroken, List.forall_mem_append, List.forall_mem_cons] at hi hlimit ⊢
    exact ⟨hi, hsigns.1, hsigns.2.1, hsigns.2.2.1, hlimit⟩
  have hlong : Token.Unbroken (init ++ comma :: (Step.comparison counter limit ++
      next :: Step.increment counter)) := by
    simp only [Token.Unbroken, Step.comparison, Step.increment, List.forall_mem_append,
      List.forall_mem_cons] at hi hlimit ⊢
    exact ⟨hi, hsigns.1, ⟨hsigns.2.1, rfl, rfl, hlimit, rfl, List.forall_mem_nil _⟩, hsigns.2.2.2,
      hsigns.2.1, rfl, List.forall_mem_nil _⟩
  have hstripped := Token.sameAll_iff.1 (decide_eq_true hsame)
  by_cases halike : (∃ token ∈ before, token.kind = .endOfFile) ∨ Step.Enclosed limit
  · refine (Analysis.agree_of_stripped ?_).interchangeable
    rw [hstripped]
    refine Token.ReadAlike.analyze_eq ?_ settings natives
    obtain hend | hlimit := halike
    · exact .of_endOfFile hend _ _
    · exact .loop he hm hk hshort hlong ho
        (hlimit.forStatement_eq hp hu hcomma hc ha hl hn)
  · obtain ⟨hend, hopen⟩ := not_or.1 halike
    replace hend : ∀ token ∈ before, token.kind ≠ .endOfFile := by simpa using hend
    -- Neither form is accepted, since either would keep the limit together.
    cases hfirst : analyze settings natives (before ++ (modifiers ++ keyword ::
      (init ++ comma :: counter :: arrow :: limit ++ opening :: after))) with
    | ok analysis =>
      obtain ⟨s, result, t, hs, hfor⟩ :=
        exists_forStatement_of_analyze hb hfirst hend he hm hk hshort ho
      exact absurd (Step.enclosed_of_arrow hs hp hu hcomma hc ha hfor) hopen
    | error errors =>
      cases hsecond : analyze settings natives (before ++ (modifiers ++ keyword ::
        (init ++ comma :: (Step.comparison counter limit ++ next :: Step.increment counter) ++
          opening :: after))) with
      | ok analysis =>
        obtain ⟨s, result, t, hs, hfor⟩ :=
          exists_forStatement_of_analyze hb hsecond hend he hm hk hlong ho
        exact absurd (Step.enclosed_of_unfolded hs hp hu hcomma hc hn hfor) hopen
      | error errors =>
        have hagree := @Analysis.agree_of_stripped settings natives _ _
          (congrArg (analyze settings natives) hstripped)
        rw [hsecond] at hagree
        cases hothers : analyze settings natives others with
        | ok analysis =>
          rw [hothers] at hagree
          cases hagree
        | error errors => trivial

namespace Counting

/-- The tokens of `i`, `->` and `3`. -/
def counter : Token := .synthetic .identifier "i"

def arrow : Token := .synthetic .arrow "->"

def limit : List Token := [.synthetic (.literal .integer) "3"]

/-- The tokens of `module m { fn f { for mut int i = 0, HEAD { } } }`. -/
def loop (head : List Token) : List Token :=
  before ++ ([] ++ .synthetic (.keyword .forWord) "for" :: (init ++ .synthetic .comma "," :: head ++
    .synthetic .openCurly "\x7b" :: [.synthetic .closeCurly "\x7d", .synthetic .closeCurly "\x7d",
      .synthetic .closeCurly "\x7d"]))

end Counting

open Counting in
/-- A loop that counts up to 3 is accepted with the same outcome in both forms. -/
theorem analyze_unfolded_loop : ∃ analysis other,
    analyze {} (fun _ _ => .notFound) (loop (counter :: arrow :: limit)) = .ok analysis ∧
      analyze {} (fun _ _ => .notFound)
        (loop (Step.comparison counter limit ++ .synthetic .comma "," :: Step.increment counter)) =
          .ok other ∧
      Analysis.Interchangeable (.ok analysis) (.ok other) := by
  have hunfolds : Token.Unfolds (loop (counter :: arrow :: limit))
      (loop (Step.comparison counter limit ++ .synthetic .comma "," :: Step.increment counter)) :=
    @Token.Unfolds.head before [] init limit _ _ _ _ counter arrow (.synthetic .comma ",") _
      (by decide) nofun rfl (by decide) (by decide) rfl rfl rfl rfl (by decide) (by decide) rfl rfl rfl
  have h := @analyze_unfolded {} (fun _ _ => .notFound) _ _ (by decide) hunfolds
  have hok : (analyze {} (fun _ _ => .notFound) (loop (counter :: arrow :: limit))).isOk = true := by
    with_unfolding_all rfl
  generalize analyze {} _ (loop (counter :: arrow :: limit)) = first at h hok
  generalize analyze {} _ (loop (Step.comparison counter limit ++
    .synthetic .comma "," :: Step.increment counter)) = second at h
  rcases first with _ | analysis <;> rcases second with _ | other
  · cases hok
  · cases hok
  · cases h
  · exact ⟨analysis, other, rfl, rfl, h⟩

end MuLang
