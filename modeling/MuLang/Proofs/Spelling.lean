import Mathlib.Data.List.Basic
import MuLang.Proofs.Ordinary

/-!
# How statements are spelled

Every statement that the second pass makes is spelled by the tokens that it was made of: its keyword,
its modifiers and names stand at their places, and each of its expressions says the words between
them. Tokens that spell nothing are either none at all or refused with an error.
-/
namespace MuLang

/-! ## Spelling -/

/-- Whether a kind of token ends a statement, opens or closes a block, or ends the program. -/
def Kind.isBreak : Kind → Bool
  | .semicolon | .openCurly | .closeCurly | .endOfFile => true
  | _ => false

/-- Tokens that stand within one statement. -/
def Token.Unbroken (tokens : List Token) : Prop := ∀ token ∈ tokens, token.kind.isBreak = false

/-- An expression says the words of its tokens in their order; parentheses and commas are none. -/
def Expr.Spelled (value : Expr) (tokens : List Token) : Prop :=
  value.words = tokens.filter Token.isWord

/-- `MODIFIERS TYPE NAME`. -/
def Parameter.words (parameter : Parameter) : List Token :=
  parameter.modifiers ++ [parameter.datatype, parameter.identifier]

/-- `(PARAMS)`, where a comma stands between any two parameters. -/
inductive Parameter.SpelledAll : List Parameter → List Token → Prop
  | none {opening closing : Token} : opening.kind = .openParen → closing.kind = .closeParen →
      SpelledAll [] [opening, closing]
  | some {opening closing : Token} {parameters : List Parameter} {tokens : List Token} :
      opening.kind = .openParen → closing.kind = .closeParen →
      parameters.map Parameter.words = fields (·.kind = .comma) tokens →
      SpelledAll parameters (opening :: tokens ++ [closing])

/-- `fn NAME`, `fn NAME ~ (PARAMS)` or `fn NAME :: TYPE (PARAMS)`. -/
inductive Signature.Spelled : Signature → List Token → Prop
  | bare {keyword identifier : Token} : keyword.kind = .keyword .fnWord →
      Spelled ⟨identifier, voidToken, []⟩ [keyword, identifier]
  | void {keyword identifier mark : Token} {parameters : List Parameter} {tokens : List Token} :
      keyword.kind = .keyword .fnWord → mark.kind = .tilde →
      Parameter.SpelledAll parameters tokens →
      Spelled ⟨identifier, voidToken, parameters⟩ (keyword :: identifier :: mark :: tokens)
  | typed {keyword identifier mark returnType : Token} {parameters : List Parameter}
      {tokens : List Token} : keyword.kind = .keyword .fnWord → mark.kind = .doubleColon →
      Parameter.SpelledAll parameters tokens →
      Spelled ⟨identifier, returnType, parameters⟩
        (keyword :: identifier :: mark :: returnType :: tokens)

/-- `MODIFIERS TYPE NAME`, or `MODIFIERS TYPE NAME = VALUE` where `?` may stand for the type. -/
inductive VariableHeader.Spelled : VariableHeader → Option Expr → List Token → Prop
  | declared {modifiers : List Token} {datatype identifier : Token} :
      Spelled ⟨modifiers, identifier, datatype⟩ none (modifiers ++ [datatype, identifier])
  | defined {modifiers tokens : List Token} {typeKeyword datatype identifier mark : Token}
      {value : Expr} : (typeKeyword.kind ≠ .question → datatype = typeKeyword) →
      mark.kind = .assign .plain → value.Spelled tokens →
      Spelled ⟨modifiers, identifier, datatype⟩ (some value)
        (modifiers ++ typeKeyword :: identifier :: mark :: tokens)

/-- `NAME(ARGS)`, `NAME OP VALUE`, `NAME++` or `NAME--`. -/
inductive Action.Spelled : Action → List Token → Prop
  | call {callee : Token} {arguments : List Expr} {tokens : List Token} :
      callee :: Expr.wordsOf arguments = tokens.filter Token.isWord →
      Spelled (.call callee arguments) tokens
  | assign {identifier operator : Token} {value : Expr} {tokens : List Token} :
      operator.kind.isAssignment → value.Spelled tokens →
      Spelled (.assign identifier operator value) (identifier :: operator :: tokens)
  | increment {identifier sign : Token} : sign.kind = .plusPlus →
      Spelled (.assign identifier (.synthetic (.assign .add) "+=") Step.one) [identifier, sign]
  | decrement {identifier sign : Token} : sign.kind = .minusMinus →
      Spelled (.assign identifier (.synthetic (.assign .subtract) "-=") Step.one)
        [identifier, sign]

/-- A statement without a block, up to its `;`. -/
inductive Stmt.Spelled : Stmt → List Token → Prop
  | native {signature : Signature} {modifiers tokens : List Token}
      {keyword arrow binding : Token} : keyword.kind = .keyword .natWord → arrow.kind = .arrow →
      signature.Spelled tokens →
      Spelled (.native (signature.header modifiers) binding)
        (modifiers ++ keyword :: tokens ++ [arrow, binding])
  | declare {header : VariableHeader} {tokens : List Token} : header.Spelled none tokens →
      Spelled (.declare header) tokens
  | define {header : VariableHeader} {value : Expr} {tokens : List Token} :
      header.Spelled (some value) tokens → Spelled (.define header value) tokens
  | action {action : Action} {tokens : List Token} : action.Spelled tokens →
      Spelled (.action action) tokens
  | leaving {keyword : Token} : keyword.kind = .keyword .returnWord →
      Spelled (.returning keyword none) [keyword]
  | returning {keyword : Token} {value : Expr} {tokens : List Token} :
      keyword.kind = .keyword .returnWord → value.Spelled tokens →
      Spelled (.returning keyword (some value)) (keyword :: tokens)
  | stdlibFinish {keyword : Token} : keyword.kind = .keyword .finishWord →
      Spelled (.stdlibFinish keyword) [keyword]

/-- The head of a block, up to its opening brace. -/
inductive Owner.Spelled : Owner → List Token → Prop
  | module {keyword identifier : Token} : keyword.kind = .keyword .moduleWord →
      Spelled (.statement (.module identifier [])) [keyword, identifier]
  | function {signature : Signature} {modifiers tokens : List Token} : signature.Spelled tokens →
      Spelled (.statement (.function (signature.header modifiers) [])) (modifiers ++ tokens)
  | ifElse {keyword : Token} {condition : Expr} {tokens : List Token} :
      keyword.kind = .keyword .ifWord → condition.Spelled tokens →
      Spelled (.statement (.ifElse keyword condition [] .absent)) (keyword :: tokens)
  | whileLoop {keyword : Token} {condition : Expr} {tokens : List Token} :
      keyword.kind = .keyword .whileWord → condition.Spelled tokens →
      Spelled (.statement (.whileLoop keyword condition [])) (keyword :: tokens)
  | forLoop {keyword comma next : Token} {header : VariableHeader} {value condition : Expr}
      {action : Action} {init test step : List Token} : keyword.kind = .keyword .forWord →
      comma.kind = .comma → next.kind = .comma → header.Spelled (some value) init →
      condition.Spelled test → action.Spelled step →
      Spelled (.statement (.forLoop keyword header value condition action []))
        (keyword :: (init ++ comma :: (test ++ next :: step)))
  /-- In `for INIT, NAME -> LIMIT` the condition is `NAME < LIMIT`, and the step is `NAME++`. -/
  | countingLoop {keyword comma counter arrow : Token} {header : VariableHeader}
      {value condition : Expr} {init limit : List Token} : keyword.kind = .keyword .forWord →
      comma.kind = .comma → arrow.kind = .arrow → header.Spelled (some value) init →
      condition.Spelled (counter :: .synthetic (.binary .less) "<" :: limit) →
      Spelled (.statement (.forLoop keyword header value condition
          (.assign counter (.synthetic (.assign .add) "+=") Step.one) []))
        (keyword :: (init ++ comma :: counter :: arrow :: limit))
  | elseIf {keyword next : Token} {condition : Expr} {tokens : List Token} :
      keyword.kind = .keyword .elseWord → next.kind = .keyword .ifWord →
      condition.Spelled tokens → Spelled (.elseIf next condition) (keyword :: next :: tokens)
  | otherwise {keyword : Token} : keyword.kind = .keyword .elseWord → Spelled .otherwise [keyword]

/-- Whether a block belongs to an `if` before it. -/
def Owner.isBranch : Owner → Bool
  | .elseIf .. | .otherwise => true
  | _ => false

/-! ## Tokens of a statement -/

namespace Token

variable {tokens rest : List Token} {token stop : Token}

theorem unbroken_nil : Unbroken [] := fun _ h => absurd h List.not_mem_nil

theorem Unbroken.of_append {more : List Token} (h : Unbroken (tokens ++ more)) :
    Unbroken tokens ∧ Unbroken more :=
  List.forall_mem_append.1 h

theorem Unbroken.ne_semicolon (h : Unbroken tokens) (ht : token ∈ tokens) :
    token.kind ≠ .semicolon := by
  intro hk
  have hb := h token ht
  rw [hk] at hb
  cases hb

/-- The words of a statement are modifiers alone, or there is one that tells what the statement is. -/
theorem modifiers_cases (hs : stop.kind.isModifier = false) (words : List Token) :
    (leadingModifiers (words ++ [stop]) = words ∧ afterModifiers (words ++ [stop]) = [stop]) ∨
    ∃ modifiers first more, words = modifiers ++ first :: more ∧
      leadingModifiers (words ++ [stop]) = modifiers ∧
      afterModifiers (words ++ [stop]) = first :: (more ++ [stop]) := by
  unfold leadingModifiers afterModifiers
  induction words with
  | nil => simp [hs]
  | cons word rest ih =>
    cases hm : word.kind.isModifier with
    | false => exact .inr ⟨[], word, rest, rfl, by simp [hm], by simp [hm]⟩
    | true =>
      obtain ⟨hl, ha⟩ | ⟨modifiers, first, more, rfl, hl, ha⟩ := ih
      · exact .inl ⟨by simpa [hm] using hl, by simpa [hm] using ha⟩
      · exact .inr ⟨word :: modifiers, first, more, rfl, by simpa [hm] using hl,
          by simpa [hm] using ha⟩

theorem modifiers_append_rest (words : List Token) :
    leadingModifiers words ++ afterModifiers words = words :=
  List.takeWhile_append_dropWhile

@[simp] theorem inner_cons_append (first : Token) (more : List Token) (stop : Token) :
    inner (first :: (more ++ [stop])) = more := by
  simp [inner]

end Token

/-! ## Functions -/

theorem drop_of_getElem? {α : Type} {list : List α} {index : Nat} {a : α}
    (h : list[index]? = some a) : list.drop index = a :: list.drop (index + 1) := by
  obtain ⟨hlt, rfl⟩ := List.getElem?_eq_some_iff.1 h
  exact List.drop_eq_getElem_cons hlt

namespace Parameter

variable {last : Token} {tokens segment : List Token} {parameter : Parameter}
  {parameters : List Parameter}

theorem words_of_ofTokens (h : Parameter.ofTokens last segment = .ok parameter) :
    parameter.words = segment := by
  have hs := Token.modifiers_append_rest segment
  unfold Parameter.ofTokens at h
  dsimp only at h
  split at h
  · cases h
  · split at h
    next datatype identifier hr =>
      split at h
      · cases h
      · split at h
        · cases h
        · cases h
          rw [words, ← hr, hs]
    · cases h

theorem words_of_mapM {segments : List (List Token)}
    (h : segments.mapM (Parameter.ofTokens last) = .ok parameters) :
    parameters.map words = segments := by
  replace h := Except.mapM_eq_ok.1 h
  induction h with
  | nil => rfl
  | cons hf _ ih => rw [List.map_cons, words_of_ofTokens hf, ih]

theorem spelledAll_of_listOfTokens {opening closing : Token} (ho : opening.kind = .openParen)
    (hc : closing.kind = .closeParen) (h : Parameter.listOfTokens tokens = .ok parameters) :
    SpelledAll parameters (opening :: tokens ++ [closing]) := by
  unfold Parameter.listOfTokens at h
  split at h
  next hl =>
    cases h
    rw [List.getLast?_eq_none_iff.1 hl]
    exact .none ho hc
  next => exact .some ho hc (words_of_mapM h)

end Parameter

namespace Signature

variable {tokens rest inner : List Token} {signature : Signature}

theorem of_parenthesized {start : Nat} (h : parenthesized tokens start = .ok inner) :
    ∃ opening closing, opening.kind = .openParen ∧ closing.kind = .closeParen ∧
      tokens.drop start = opening :: inner ++ [closing] := by
  simp only [parenthesized, Except.bind_eq_ok, Except.ite_eq_ok, Except.pure_eq_ok,
    Except.throw_ne_ok] at h
  obtain ⟨opening, ho, last, hl, ⟨-, -, hf, -⟩ | ⟨hn, rfl⟩⟩ := h
  · cases hf
  obtain ⟨hstart, ho⟩ := Token.getElem?_of_expectAt ho
  obtain ⟨hne, hc⟩ := not_or.1 hn
  have hd := drop_of_getElem? hstart
  have hlt := (List.getElem?_eq_some_iff.1 hstart).1
  have hlast : (tokens.drop (start + 1)).getLast? = some last := by
    rw [List.getLast?_drop, if_neg (by omega), List.getLast?_eq_getElem?]
    exact Token.getElem?_of_tokenAt hl
  refine ⟨opening, last, by simpa using ho, Decidable.not_not.1 hc, ?_⟩
  rw [hd, List.cons_append, List.dropLast_append_getLast? last hlast]

theorem spelled_of_ofTokens {allowBare : Bool} (h : ofTokens tokens allowBare = .ok signature) :
    signature.Spelled tokens := by
  simp only [ofTokens, Except.bind_eq_ok, Except.ite_eq_ok, Except.pure_eq_ok] at h
  obtain ⟨keyword, hk, identifier, hi, h⟩ := h
  obtain ⟨h0, hk⟩ := Token.getElem?_of_expectAt hk
  have hk : keyword.kind = .keyword .fnWord := by simpa using hk
  have h1 := Token.getElem?_of_expectName hi
  have htokens : tokens = keyword :: identifier :: tokens.drop 2 := by
    rw [← drop_of_getElem? h1, ← drop_of_getElem? h0, List.drop_zero]
  obtain ⟨hb, rfl⟩ | ⟨-, mark, hm, h⟩ := h
  · have hn : tokens.drop 2 = [] := by
      have hlength : tokens.length = 2 := by simpa using (Bool.and_eq_true_iff.1 hb).2
      exact List.drop_eq_nil_iff.2 (Nat.le_of_eq hlength)
    rw [htokens, hn]
    exact .bare hk
  obtain ⟨h2, hm⟩ := Token.getElem?_of_expectAt hm
  rw [drop_of_getElem? h2] at htokens
  obtain ⟨ht, inner, hp, parameters, hl, rfl⟩ | ⟨ht, returnType, hr, inner, hp, parameters, hl, rfl⟩ :=
    h
  · obtain ⟨opening, closing, ho, hc, hd⟩ := of_parenthesized hp
    rw [htokens, hd]
    exact .void hk ht (Parameter.spelledAll_of_listOfTokens ho hc hl)
  · obtain ⟨opening, closing, ho, hc, hd⟩ := of_parenthesized hp
    have hm : mark.kind = .doubleColon := by simpa [ht] using hm
    rw [htokens, drop_of_getElem? (Token.getElem?_of_expectAt hr).1, hd]
    exact .typed hk hm (Parameter.spelledAll_of_listOfTokens ho hc hl)

end Signature

/-! ## Variables -/

/-- What a declaration says is spelled by its tokens up to the `;`. -/
theorem VariableForm.spelled_of_ofTokens {first stop : Token} {more : List Token}
    {form : VariableForm} (hw : Token.Unbroken more) (hs : stop.kind = .semicolon)
    (h : VariableForm.ofTokens (first :: (more ++ [stop])) = .ok form) :
    form.typeKeyword = first ∧ (form.value = none ∧ more = [form.identifier] ∨
      ∃ tokens, form.value = some tokens ∧ form.mark.kind = .assign .plain ∧
        more = form.identifier :: form.mark :: tokens) := by
  simp [VariableForm.ofTokens, Token.tokenAt] at h
  obtain ⟨-, identifier, hi, mark, hm, h⟩ := h
  have h1 := Token.getElem?_of_expectName hi
  obtain ⟨h2, haccepts⟩ := Token.getElem?_of_expectAt hm
  rcases more with _ | ⟨second, _ | ⟨third, rest⟩⟩
  · cases h2
  · cases h1
    cases h2
    obtain ⟨ha, -⟩ | ⟨-, -, rfl⟩ := h
    · rw [hs] at ha
      cases ha
    · exact ⟨rfl, .inl ⟨rfl, rfl⟩⟩
  · cases h1
    cases h2
    have hn : mark.kind ≠ .semicolon := hw.ne_semicolon (by simp)
    obtain ⟨ha, value, hv, rfl⟩ | ⟨hna, -⟩ := h
    · refine ⟨rfl, .inr ⟨value, rfl, ha, ?_⟩⟩
      simp [Token.valueFrom] at hv
      rw [← hv]
    · simp [hn, hna] at haccepts

namespace Step

variable {s t : Session} {first stop : Token} {more modifiers : List Token}

theorem spelled_variable {result : Option (VariableHeader × Option Expr)}
    (hs : s.isSkimming = false) (hw : Token.Unbroken more) (hk : stop.kind = .semicolon)
    (h : variableStatement (first :: (more ++ [stop])) modifiers s = (.ok result, t)) :
    ∃ header value, result = some (header, value) ∧
      header.Spelled value (modifiers ++ first :: more) := by
  obtain ⟨form, hf, -, he⟩ := evaluate_variableStatement hs h
  obtain ⟨typed, type, datatype, scopes, hd, rfl⟩ := evaluateVariable_ok he
  refine ⟨_, typed, rfl, ?_⟩
  have hwritten : form.typeKeyword.kind ≠ .question → datatype = form.typeKeyword := by
    intro hq
    have ht := hd.datatype_eq
    rw [if_neg hq] at ht
    exact (Option.some.inj ht).symm
  obtain ⟨-, -, hquestion⟩ := typeKeyword_of_ofTokens hf
  obtain ⟨rfl, ⟨hn, rfl⟩ | ⟨tokens, hv, hm, rfl⟩⟩ := VariableForm.spelled_of_ofTokens hw hk hf
  · obtain rfl := hd.none_iff.1 hn
    have hq : form.typeKeyword.kind ≠ .question := by
      intro hq
      simp [hn] at hquestion
      exact hquestion hq
    rw [hwritten hq]
    exact .declared
  · obtain ⟨value, rfl⟩ : ∃ value, typed = some value := by
      rw [← Option.ne_none_iff_exists']
      intro hn
      rw [hd.none_iff.2 hn] at hv
      cases hv
    exact .defined hwritten hm (Env.words_of_expression (hd.typed_eq tokens hv value rfl))

theorem spelled_declared {result : Option Stmt} (hs : s.isSkimming = false)
    (hw : Token.Unbroken more) (hk : stop.kind = .semicolon)
    (h : (variableStatement (first :: (more ++ [stop])) modifiers >>= fun head =>
      pure (head.map declared)) s = (.ok result, t)) :
    ∃ stmt, result = some stmt ∧ stmt.Spelled (modifiers ++ first :: more) := by
  obtain ⟨head, hv, rfl⟩ := Fallible.map_eq_ok.1 h
  obtain ⟨header, value, rfl, hspelled⟩ := spelled_variable hs hw hk hv
  cases value with
  | none => exact ⟨_, rfl, .declare hspelled⟩
  | some value => exact ⟨_, rfl, .define hspelled⟩

/-! ## Actions -/

theorem spelled_action {result : Option Action} (hs : s.isSkimming = false)
    (hk : stop.kind = .semicolon)
    (h : actionStatement (first :: (more ++ [stop])) modifiers s = (.ok result, t)) :
    ∃ action, result = some action ∧ action.Spelled (modifiers ++ first :: more) := by
  cases more with
  | nil => simp [actionStatement, Token.tokenAt, and_assoc, hk] at h
  | cons next rest =>
    have hend (whole : Bool) (he : Token.expectEnd (first :: next :: (rest ++ [stop])) 3 = .ok whole) :
        whole = true ∧ rest = [] := by
      cases rest <;> simp [Token.expectEnd] at he
      exact ⟨he, rfl⟩
    simp [actionStatement, Token.tokenAt, and_assoc] at h
    obtain ⟨rfl, -, h⟩ := h
    generalize hn : next.kind = kind at h
    split at h
    · simp [hs, and_assoc] at h
      obtain ⟨value, scopes, hx, h⟩ := h
      split at h
      · obtain ⟨rfl, -⟩ := Fallible.pure_eq_ok.1 h
        have hwords := Env.words_of_expression hx
        rw [← List.cons_append, List.dropLast_concat] at hwords
        exact ⟨_, rfl, .call hwords⟩
      · exact absurd h (by simp)
    · obtain ⟨whole, he, h⟩ := Fallible.ofExcept_bind_eq_ok.1 h
      obtain ⟨rfl, rfl⟩ := hend whole he
      obtain ⟨type, scopes, ha, -, rfl⟩ := evaluate_assignStatement hs h
      exact ⟨_, rfl, .increment hn⟩
    · obtain ⟨whole, he, h⟩ := Fallible.ofExcept_bind_eq_ok.1 h
      obtain ⟨rfl, rfl⟩ := hend whole he
      obtain ⟨type, scopes, ha, -, rfl⟩ := evaluate_assignStatement hs h
      exact ⟨_, rfl, .decrement hn⟩
    · simp [hs, and_assoc, Token.valueFrom] at h
      obtain ⟨value, scopes, hx, h⟩ := h
      obtain ⟨type, scopes, ha, -, rfl⟩ := evaluate_assignStatement (by exact hs) h
      exact ⟨_, rfl, .assign (by rw [hn]; rfl) (Env.words_of_expression hx)⟩
    · exact absurd h (by simp)

/-! ## Statements without a block -/

theorem spelled_return {result : Option Stmt} (hs : s.isSkimming = false)
    (hf : first.kind = .keyword .returnWord)
    (h : returnStatement (first :: (more ++ [stop])) modifiers s = (.ok result, t)) :
    ∃ stmt, result = some stmt ∧ stmt.Spelled (modifiers ++ first :: more) := by
  obtain ⟨-, keyword, value, scopes, rfl, -, hx, hn, -, rfl, hk⟩ := evaluate_returnStatement hs h
  obtain rfl : first = keyword := Except.ok.inj hk
  rw [Token.inner_cons_append] at hx hn
  refine ⟨_, rfl, ?_⟩
  cases value with
  | none =>
    obtain ⟨-, rfl⟩ := hn rfl
    exact .leaving hf
  | some value => exact .returning hf (Env.words_of_expression (hx value rfl))

theorem spelled_finish {result : Option Stmt} (hs : s.isSkimming = false)
    (hf : first.kind = .keyword .finishWord)
    (h : finishStatement (first :: (more ++ [stop])) modifiers s = (.ok result, t)) :
    ∃ stmt, result = some stmt ∧ stmt.Spelled (modifiers ++ first :: more) := by
  have hend (whole : Bool) (he : Token.expectEnd (first :: (more ++ [stop])) 2 = .ok whole) :
      whole = true ∧ more = [] := by
    cases more <;> simp [Token.expectEnd] at he
    exact ⟨he, rfl⟩
  simp [finishStatement, Token.tokenAt, and_assoc] at h
  obtain ⟨rfl, ⟨he, -⟩ | ⟨he, ⟨hskim, -⟩ | ⟨-, rfl, -⟩⟩⟩ := h
  · cases (hend _ he).1
  · cases hs.symm.trans hskim
  · obtain ⟨-, rfl⟩ := hend _ he
    exact ⟨_, rfl, .stdlibFinish hf⟩

theorem spelled_native {result : Option Stmt} (hs : s.isSkimming = false)
    (hf : first.kind = .keyword .natWord)
    (h : nativeStatement (first :: (more ++ [stop])) modifiers s = (.ok result, t)) :
    ∃ stmt, result = some stmt ∧ stmt.Spelled (modifiers ++ first :: more) := by
  simp [nativeStatement, hs, and_assoc] at h
  obtain ⟨-, -, -, hl, ⟨arrow, ha⟩, binding, hb, signature, hh, -, rfl, -⟩ := h
  obtain ⟨ha, hk⟩ := Token.getElem?_of_expectAt ha
  have hb := (Token.getElem?_of_expectAt hb).1
  -- The last two tokens are the arrow and the namespace, and what stands before is the signature.
  have hlast : (first :: (more ++ [stop])).drop (more.length - 1) = [arrow, binding, stop] := by
    rw [drop_of_getElem? ha, Nat.sub_add_cancel (Nat.le_trans (by decide) hl), drop_of_getElem? hb]
    simp
  have hmore : first :: more = (first :: (more ++ [stop])).take (more.length - 1) ++
      [arrow, binding] := by
    refine List.append_cancel_right (?_ : first :: more ++ [stop] = _ ++ [stop])
    rw [List.append_assoc, List.cons_append, List.cons_append, List.cons_append, List.nil_append,
      ← hlast, List.take_append_drop]
  rw [hmore]
  generalize (first :: (more ++ [stop])).take (more.length - 1) = before at hh hmore ⊢
  cases before with
  | nil => simp [(List.cons.inj hmore).2] at hl
  | cons keyword tokens =>
    obtain ⟨rfl, -⟩ := List.cons.inj hmore
    have hspelled := @Stmt.Spelled.native signature modifiers tokens first arrow binding hf
      (by simpa using hk) (Signature.spelled_of_ofTokens hh)
    refine ⟨_, rfl, ?_⟩
    simpa using hspelled

/-- Tokens that end in a `;` spell the statement that they are read as, unless there are none. -/
theorem spelled_closed {words : List Token} {result : Option Stmt} (hs : s.isSkimming = false)
    (hw : Token.Unbroken words) (hk : stop.kind = .semicolon)
    (h : closed (words ++ [stop]) s = (.ok result, t)) :
    words = [] ∧ result = none ∨ ∃ stmt, result = some stmt ∧ stmt.Spelled words := by
  unfold closed at h
  cases hb : Token.block? (words ++ [stop]) with
  | some kind =>
    simp only [hb] at h
    exact absurd h (fails_ofExcept_bind_fail _ _ _ _ _ _)
  | none =>
    simp only [hb] at h
    unfold statement at h
    unfold Token.block? at hb
    obtain ⟨hl, ha⟩ | ⟨modifiers, first, more, rfl, hl, ha⟩ :=
      Token.modifiers_cases (by rw [hk]; rfl) words
    · rw [hl, ha] at h
      simp [hk] at h
      exact .inl ⟨h.1, h.2.1.symm⟩
    · rw [hl, ha] at h
      rw [ha] at hb
      obtain ⟨hfirst, hmore⟩ := List.forall_mem_cons.1 hw.of_append.2
      refine .inr ?_
      simp only [List.head?_cons, Option.bind_some] at h hb
      generalize hf : first.kind = kind at h hb hfirst
      split at h
      next => simp [Kind.block?] at hb
      next => simp [Kind.block?] at hb
      next => exact spelled_native hs hf h
      next => simp [Kind.block?] at hb
      next => simp [Kind.block?] at hb
      next => simp [Kind.block?] at hb
      next => exact spelled_return hs hf h
      next => exact spelled_finish hs hf h
      next =>
        obtain ⟨action?, ha, rfl⟩ := Fallible.map_eq_ok.1 h
        obtain ⟨action, rfl, hspelled⟩ := spelled_action hs hk ha
        exact ⟨_, rfl, .action hspelled⟩
      next => exact spelled_declared hs hmore hk h
      next => exact spelled_declared hs hmore hk h
      next => cases hfirst
      next => exact absurd h (fails_fail _ _ _ _ _)

/-! ## Heads of blocks -/

theorem spelled_module {result : Option Stmt} (hs : s.isSkimming = false)
    (hf : first.kind = .keyword .moduleWord)
    (h : moduleStatement (first :: (more ++ [stop])) modifiers s = (.ok result, t)) :
    ∃ stmt, result = some stmt ∧ (Owner.statement stmt).Spelled (modifiers ++ first :: more) := by
  obtain ⟨identifier, hi, -, rfl, -⟩ := moduleStatement_ok h
  rw [hs]
  simp [moduleStatement, and_assoc] at h
  obtain ⟨rfl, -, -, ⟨brace, hb⟩, he, -⟩ := h
  have hi := Token.getElem?_of_expectName hi
  have hb := (Token.getElem?_of_expectAt hb).1
  rcases more with _ | ⟨second, _ | ⟨third, rest⟩⟩
  · cases hb
  · cases hi
    exact ⟨_, rfl, .module hf⟩
  · simp [Token.expectEnd] at he

theorem spelled_function {result : Option Stmt} (hs : s.isSkimming = false)
    (h : functionStatement (first :: (more ++ [stop])) modifiers s = (.ok result, t)) :
    ∃ stmt, result = some stmt ∧ (Owner.statement stmt).Spelled (modifiers ++ first :: more) := by
  obtain ⟨signature, definition, hh, -, -, rfl, -⟩ := evaluate_functionStatement hs h
  rw [← List.cons_append, List.dropLast_concat] at hh
  exact ⟨_, rfl, .function (Signature.spelled_of_ofTokens hh)⟩

/-- In the second pass the head of an `if` is its keyword and a condition. -/
theorem spelled_if {result : Option (Token × Expr)} (hs : s.isSkimming = false)
    (h : ifStatement (first :: (more ++ [stop])) modifiers s = (.ok result, t)) :
    modifiers = [] ∧ ∃ condition, result = some (first, condition) ∧ condition.Spelled more := by
  simp [ifStatement, hs, Token.tokenAt, and_assoc] at h
  obtain ⟨hm, -, value, ⟨scopes, hx, -⟩, -, rfl⟩ := h
  exact ⟨hm, value, rfl, Env.words_of_expression hx⟩

theorem spelled_while {result : Option Stmt} (hs : s.isSkimming = false)
    (hf : first.kind = .keyword .whileWord)
    (h : whileStatement (first :: (more ++ [stop])) modifiers s = (.ok result, t)) :
    ∃ stmt, result = some stmt ∧ (Owner.statement stmt).Spelled (modifiers ++ first :: more) := by
  simp [whileStatement, hs, Token.tokenAt, and_assoc] at h
  obtain ⟨rfl, -, value, ⟨scopes, hx, -⟩, -, rfl⟩ := h
  exact ⟨_, rfl, .whileLoop hf (Env.words_of_expression hx)⟩

/-! ## Heads of loops -/

/-- Some parts with a comma between any two of them. -/
inductive Parted : List (List Token) → List Token → Prop
  | last {part : List Token} : Parted [part] part
  | next {comma : Token} {part tokens : List Token} {parts : List (List Token)} :
      comma.kind = .comma → Parted parts tokens → Parted (part :: parts) (part ++ comma :: tokens)

theorem parted_headParts (depth : Nat) (tokens : List Token) :
    Parted (headParts depth tokens) tokens := by
  fun_induction headParts depth tokens with
  | case1 => exact .last
  | case2 depth token rest hc ih => exact .next hc.1 ih
  | case3 depth token rest hn inside hp ih =>
    rw [hp] at ih
    cases ih
  | case4 depth token rest hn inside part parts hp ih =>
    rw [hp] at ih
    cases ih with
    | last => exact .last
    | next hc hparted => exact @Parted.next _ (token :: part) _ _ hc hparted

theorem unbroken_of_parted {parts : List (List Token)} {tokens part : List Token}
    (h : Parted parts tokens) (hu : Token.Unbroken tokens) (hp : part ∈ parts) :
    Token.Unbroken part := by
  induction h with
  | last => rwa [List.mem_singleton.1 hp]
  | next _ _ ih =>
    obtain ⟨hfirst, hrest⟩ := hu.of_append
    cases hp with
    | head => exact hfirst
    | tail _ hp => exact ih (fun token ht => hrest token (.tail _ ht)) hp

/-- The three parts of a loop's head spell its variable, its condition and its step. -/
theorem spelled_loop {keyword : Token} {init test step : List Token} {result : Option Stmt}
    (hs : s.isSkimming = false) (hw : Token.Unbroken init)
    (h : loopStatement keyword init test step s = (.ok result, t)) :
    ∃ header value condition action,
      result = some (.forLoop keyword header value condition action []) ∧
      header.Spelled (some value) init ∧ condition.Spelled test ∧ action.Spelled step := by
  obtain ⟨header, value, condition, action, declared, tested, acted, hv, hx, -, -, -, rfl, hd,
    after, ha⟩ := evaluate_loopStatement hs h
  refine ⟨header, value, condition, action, rfl, ?_, Env.words_of_expression hx, ?_⟩
  · have hinit := Token.modifiers_append_rest init
    cases hr : Token.afterModifiers init with
    | nil =>
      obtain ⟨form, hf, -⟩ := evaluate_variableStatement hs hv
      rw [hr] at hf
      cases hf
    | cons first more =>
      rw [hr] at hinit hv
      rw [← hinit] at hw
      obtain ⟨_, _, hr, hspelled⟩ := spelled_variable hs
        (fun token ht => hw.of_append.2 token (.tail _ ht)) rfl hv
      cases hr
      rwa [hinit] at hspelled
  · cases step with
    | nil => simp [actionStatement, terminated, Token.tokenAt] at ha
    | cons first more =>
      obtain ⟨_, hr, hspelled⟩ := spelled_action (by exact hd) (by rfl) ha
      cases hr
      exact hspelled

/-- The step that the arrow form of a loop stands for. -/
theorem increment_of_counter {counter : Token} {result : Option Action}
    (hs : s.isSkimming = false)
    (h : actionStatement (terminated [counter, .synthetic .plusPlus "++"]) [] s =
      (.ok result, t)) :
    result = some (.assign counter (.synthetic (.assign .add) "+=") one) := by
  simp [actionStatement, terminated, Token.tokenAt, Token.expectEnd, and_assoc] at h
  obtain ⟨-, h⟩ := h
  obtain ⟨type, scopes, -, -, rfl⟩ := evaluate_assignStatement hs h
  rfl

theorem spelled_for {result : Option Stmt} (hs : s.isSkimming = false)
    (hf : first.kind = .keyword .forWord) (hw : Token.Unbroken more)
    (h : forStatement (first :: (more ++ [stop])) modifiers s = (.ok result, t)) :
    ∃ stmt, result = some stmt ∧ (Owner.statement stmt).Spelled (modifiers ++ first :: more) := by
  have hparted := parted_headParts 0 more
  simp [forStatement, Token.tokenAt, and_assoc] at h
  obtain ⟨rfl, -, h⟩ := h
  generalize headParts 0 more = parts at h hparted
  split at h
  next init test step =>
    obtain ⟨header, value, condition, action, rfl, hi, ht, ha⟩ :=
      spelled_loop (by exact hs) (unbroken_of_parted hparted hw (.head _)) h
    cases hparted with
    | next hc hp =>
      cases hp with
      | next hn hp =>
        cases hp with
        | last => exact ⟨_, rfl, .forLoop hf hc hn hi ht ha⟩
        | next _ hp => cases hp
  next init transition =>
    split at h
    next counter arrow limit =>
      simp at h
      obtain ⟨⟨-, ha, -⟩, h⟩ := h
      -- The step is made up of no tokens of the text, so it is looked at apart from the rest.
      obtain ⟨header, value, condition, action, declared, tested, acted, -, -, -, -, -, hr, hd,
        after, hstep⟩ := evaluate_loopStatement (by exact hs) h
      obtain ⟨_, _, _, _, hr', hi, ht, -⟩ :=
        spelled_loop (by exact hs) (unbroken_of_parted hparted hw (.head _)) h
      cases increment_of_counter (by exact hd) hstep
      cases hr.symm.trans hr'
      cases hparted with
      | next hc hp =>
        cases hp with
        | last =>
          refine ⟨_, hr, .countingLoop hf hc ha hi ?_⟩
          simpa [Expr.Spelled, Token.isWord, Token.synthetic, Kind.isWord, List.filter_cons] using ht
        | next _ hp => cases hp
    next => exact absurd h (by simp)
  next => exact absurd h (by simp)

/-! ## Branches -/

theorem spelled_else {chain : Chain} {result : Option Owner} (hs : s.isSkimming = false)
    (hf : first.kind = .keyword .elseWord) (hk : stop.kind = .openCurly)
    (h : elseOwner chain (first :: (more ++ [stop])) modifiers s = (.ok result, t)) :
    ∃ owner, result = some owner ∧ owner.Spelled (modifiers ++ first :: more) := by
  cases more with
  | nil =>
    simp [elseOwner, Token.tokenAt, hk, and_assoc] at h
    obtain ⟨rfl, -, rfl, -⟩ := h
    exact ⟨_, rfl, .otherwise hf⟩
  | cons next rest =>
    simp [elseOwner, Token.tokenAt, and_assoc] at h
    obtain ⟨rfl, -, hn, head, hi, rfl⟩ := h
    obtain ⟨-, condition, rfl, hspelled⟩ := spelled_if hs hi
    exact ⟨_, rfl, .elseIf hf hn hspelled⟩

/-- The head of a block that is no branch spells the statement that it belongs to. -/
theorem spelled_head {words : List Token} {kind : ScopeKind} {result : Option Stmt}
    (hs : s.isSkimming = false) (hw : Token.Unbroken words) (hk : stop.kind = .openCurly)
    (hb : Token.block? (words ++ [stop]) = some kind)
    (h : statement (words ++ [stop]) s = (.ok result, t)) :
    ∃ stmt, result = some stmt ∧ (Owner.statement stmt).Spelled words := by
  unfold statement at h
  unfold Token.block? at hb
  obtain ⟨hl, ha⟩ | ⟨modifiers, first, more, rfl, hl, ha⟩ :=
    Token.modifiers_cases (by rw [hk]; rfl) words
  · simp [ha, hk, Kind.block?] at hb
  · rw [hl, ha] at h
    rw [ha] at hb
    have hmore := (List.forall_mem_cons.1 hw.of_append.2).2
    simp only [List.head?_cons, Option.bind_some] at h hb
    generalize hf : first.kind = kind at h hb
    split at h <;> try simp [Kind.block?] at hb
    · exact spelled_module hs hf h
    · exact spelled_function hs h
    · obtain ⟨head, hi, rfl⟩ := Fallible.map_eq_ok.1 h
      obtain ⟨rfl, condition, rfl, hspelled⟩ := spelled_if hs hi
      exact ⟨_, rfl, .ifElse hf hspelled⟩
    · exact spelled_while hs hf h
    · exact spelled_for hs hf hmore h
    · exact absurd h (fails_fail _ _ _ _ _)

/-- Whatever an opening brace ends is the head of a block that it spells. A branch follows an
`if`. -/
theorem spelled_owner {chain : Chain} {words : List Token} {result : Option Owner}
    (hs : s.isSkimming = false) (hw : Token.Unbroken words) (hk : stop.kind = .openCurly)
    (h : owner chain (words ++ [stop]) s = (.ok result, t)) :
    ∃ owner, result = some owner ∧ owner.Spelled words ∧ (owner.isBranch → chain ≠ .closed) := by
  unfold owner at h
  cases hb : Token.block? (words ++ [stop]) with
  | none =>
    simp only [hb] at h
    exact absurd h (fails_ofExcept_bind_fail _ _ _ _ _ _)
  | some kind =>
    simp only [hb] at h
    obtain ⟨he, h⟩ | ⟨-, h⟩ := Fallible.ite_eq_ok.1 h
    · obtain ⟨-, ha⟩ | ⟨modifiers, first, more, rfl, hl, ha⟩ :=
        Token.modifiers_cases (by rw [hk]; rfl) words
      · simp [ha, hk] at he
      · rw [hl, ha] at h
        rw [ha] at he
        obtain ⟨owner, rfl, hspelled⟩ := spelled_else hs (by simpa using he) hk h
        exact ⟨owner, rfl, hspelled, fun _ => (elseOwner_ok h).1⟩
    · obtain ⟨read, hread, rfl⟩ := Fallible.map_eq_ok.1 h
      obtain ⟨stmt, rfl, hspelled⟩ := spelled_head hs hw hk hb hread
      exact ⟨_, rfl, hspelled, fun hb => absurd hb Bool.false_ne_true⟩

end Step

end MuLang
