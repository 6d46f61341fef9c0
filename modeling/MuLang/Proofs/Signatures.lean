import MuLang.Proofs.Modified

/-!
# The heads of functions

A head of a function is `fn NAME`, `fn NAME ~ (PARAMS)` or `fn NAME :: TYPE (PARAMS)`, and nothing else
is one: the tokens that are read as a signature are just those that this grammar makes of it.
-/
namespace MuLang

/-! ## The grammar -/

/-- A name that is not qualified. -/
structure Token.IsName (token : Token) : Prop where
  kind_eq : token.kind = .identifier
  undotted : isDotted token.text = false

/-- `MODIFIERS TYPE NAME`, where no modifier restricts access and the type has values. -/
structure Parameter.Legal (parameter : Parameter) : Prop where
  modifiers : ∀ token ∈ parameter.modifiers, ∃ modifier, token.kind = .modifier modifier ∧
    modifier ∉ [.pub, .priv, .prot, .own]
  datatype : ∃ name, parameter.datatype.kind = .typeName name ∧ name ≠ .void
  identifier : parameter.identifier.IsName

/-- What stands between the parentheses of a head: nothing, or parameters with a comma between any two
of them. -/
inductive Parameter.Listed : List Parameter → List Token → Prop
  | none : Listed [] []
  | last {parameter : Parameter} : parameter.Legal → Listed [parameter] parameter.words
  | next {parameter other : Parameter} {parameters : List Parameter} {comma : Token}
      {tokens : List Token} : parameter.Legal → comma.kind = .comma →
      Listed (other :: parameters) tokens →
      Listed (parameter :: other :: parameters) (parameter.words ++ comma :: tokens)

/-- The signatures that heads spell. Where `allowBare` is set, a head may end after the name. -/
inductive Signature.Heads (allowBare : Bool) : List Token → Signature → Prop
  | bare {keyword identifier : Token} : allowBare → keyword.kind = .keyword .fnWord →
      identifier.IsName → Heads allowBare [keyword, identifier] ⟨identifier, voidToken, []⟩
  | void {keyword identifier mark opening closing : Token} {tokens : List Token}
      {parameters : List Parameter} : keyword.kind = .keyword .fnWord → identifier.IsName →
      mark.kind = .tilde → opening.kind = .openParen → Parameter.Listed parameters tokens →
      closing.kind = .closeParen →
      Heads allowBare (keyword :: identifier :: mark :: opening :: (tokens ++ [closing]))
        ⟨identifier, voidToken, parameters⟩
  | typed {keyword identifier mark returnType opening closing : Token} {tokens : List Token}
      {parameters : List Parameter} {name : TypeName} : keyword.kind = .keyword .fnWord →
      identifier.IsName → mark.kind = .doubleColon → returnType.kind = .typeName name →
      opening.kind = .openParen → Parameter.Listed parameters tokens →
      closing.kind = .closeParen →
      Heads allowBare
        (keyword :: identifier :: mark :: returnType :: opening :: (tokens ++ [closing]))
        ⟨identifier, returnType, parameters⟩

/-! ## Kinds of token -/

theorem Kind.modifier?_eq_some {kind : Kind} {modifier : Modifier} :
    kind.modifier? = some modifier ↔ kind = .modifier modifier := by
  cases kind <;> simp [modifier?]

theorem Kind.isTypeName_iff {kind : Kind} : kind.isTypeName ↔ ∃ name, kind = .typeName name := by
  cases kind <;> simp [isTypeName, typeName?]

theorem Modifier.restrictsAccess_iff {modifier : Modifier} :
    modifier.restrictsAccess ↔ modifier ∈ [pub, priv, prot, own] := by
  cases modifier <;> decide

/-- Modifiers among which none is refused. -/
theorem Token.forall_isParameterModifier {tokens : List Token} :
    (∀ token ∈ tokens, ∃ modifier, token.kind = .modifier modifier ∧
      modifier ∉ [.pub, .priv, .prot, .own]) ↔
    AreModifiers tokens ∧ firstModifier? Modifier.restrictsAccess tokens = none := by
  rw [firstModifier?, List.find?_eq_none, AreModifiers, ← forall₂_and]
  refine forall₂_congr fun token _ => ?_
  simp only [Kind.isModifier, Option.isSome_iff_exists, Option.any_eq_true, Kind.modifier?_eq_some,
    ← Modifier.restrictsAccess_iff]
  constructor
  · rintro ⟨modifier, hk, hr⟩
    refine ⟨⟨modifier, hk⟩, ?_⟩
    rintro ⟨other, ho, hother⟩
    cases hk.symm.trans ho
    exact hr hother
  · rintro ⟨⟨modifier, hk⟩, hr⟩
    exact ⟨modifier, hk, fun h => hr ⟨modifier, hk, h⟩⟩

/-! ## Tokens at their places -/

namespace Token

variable {tokens : List Token} {index : Nat} {next : Token}

theorem tokenAt_eq_ok : tokenAt tokens index = .ok next ↔ tokens[index]? = some next := by
  unfold tokenAt
  split <;> simp [*]

theorem expectAt_eq_ok {accepts : Kind → Bool} {expected : String} :
    expectAt tokens index accepts expected = .ok next ↔
      tokens[index]? = some next ∧ accepts next.kind := by
  refine ⟨getElem?_of_expectAt, fun ⟨ht, ha⟩ => ?_⟩
  rw [expectAt, ht]
  exact if_pos ha

theorem expectName_eq_ok {what : String} :
    expectName tokens index what = .ok next ↔ tokens[index]? = some next ∧ next.IsName := by
  unfold expectName
  constructor
  · intro h
    split at h
    · cases h
    next he =>
      obtain ⟨ht, hk⟩ := expectAt_eq_ok.1 he
      split at h <;> cases h
      next hd => exact ⟨ht, of_decide_eq_true hk, by simpa using hd⟩
  · rintro ⟨ht, hk, hd⟩
    have he : expectAt tokens index (· = .identifier) what = .ok next :=
      expectAt_eq_ok.2 ⟨ht, decide_eq_true hk⟩
    simp only [he, hd]
    rfl

end Token

/-! ## Parameters -/

namespace Parameter

variable {last : Token} {tokens segment : List Token} {parameter : Parameter}
  {parameters : List Parameter}

theorem legal_of_ofTokens (h : Parameter.ofTokens last segment = .ok parameter) :
    parameter.Legal := by
  unfold Parameter.ofTokens at h
  dsimp only at h
  split at h
  · cases h
  next hfree =>
    split at h
    next datatype identifier _ =>
      split at h
      · cases h
      next hd =>
        split at h
        · cases h
        next hi =>
          cases h
          rw [not_or, Decidable.not_not, Bool.not_eq_true] at hi
          rw [Bool.not_eq_true, Bool.or_eq_false_iff, Bool.not_eq_false', Kind.isTypeName_iff] at hd
          obtain ⟨⟨name, hk⟩, hv⟩ := hd
          refine ⟨Token.forall_isParameterModifier.2
            ⟨Token.areModifiers_leadingModifiers segment, hfree⟩, ⟨name, hk, ?_⟩, hi.1, hi.2⟩
          rintro rfl
          exact of_decide_eq_false hv hk
    · cases h

theorem ofTokens_eq_ok : Parameter.ofTokens last segment = .ok parameter ↔
    parameter.Legal ∧ parameter.words = segment := by
  refine ⟨fun h => ⟨legal_of_ofTokens h, words_of_ofTokens h⟩, ?_⟩
  rintro ⟨hl, rfl⟩
  obtain ⟨hm, hfree⟩ := Token.forall_isParameterModifier.1 hl.modifiers
  obtain ⟨name, hd, hv⟩ := hl.datatype
  have hn : parameter.datatype.kind.isModifier = false := by
    rw [hd]
    rfl
  have hleading : Token.leadingModifiers parameter.words = parameter.modifiers := by
    rw [Token.leadingModifiers, words, List.takeWhile_append_of_pos hm,
      List.takeWhile_cons_of_neg (by simp [hn]), List.append_nil]
  have hafter : Token.afterModifiers parameter.words = [parameter.datatype, parameter.identifier] := by
    rw [Token.afterModifiers, words, List.dropWhile_append_of_pos hm,
      List.dropWhile_cons_of_neg (by simp [hn])]
  simp [Parameter.ofTokens, hleading, hafter, hfree, hd, hv, hl.identifier.kind_eq,
    hl.identifier.undotted, Kind.isTypeName, Kind.typeName?]

/-- A parameter has no comma. -/
theorem Legal.forall_ne_comma (h : parameter.Legal) :
    ∀ token ∈ parameter.words, decide (token.kind = .comma) = false := by
  intro token ht
  obtain ⟨name, hd, -⟩ := h.datatype
  obtain hm | hm := List.mem_append.1 ht
  · obtain ⟨modifier, hk, -⟩ := h.modifiers token hm
    rw [hk]
    rfl
  · obtain rfl | rfl : token = parameter.datatype ∨ token = parameter.identifier := by
      simpa using hm
    · rw [hd]
      rfl
    · rw [h.identifier.kind_eq]
      rfl

theorem Listed.eq_nil_iff (h : Listed parameters tokens) : parameters = [] ↔ tokens = [] := by
  cases h <;> simp [words]

/-- The segments between commas are parameters just if there are some and they are listed. -/
theorem forall_fields_iff :
    List.Forall₂ (fun segment parameter => parameter.Legal ∧ parameter.words = segment)
      (fields (·.kind = .comma) tokens) parameters ↔ parameters ≠ [] ∧ Listed parameters tokens := by
  constructor
  · intro h
    induction parameters generalizing tokens with
    | nil => exact absurd (List.forall₂_nil_right_iff.1 h) (fields_ne_nil tokens)
    | cons parameter parameters ih =>
      refine ⟨List.cons_ne_nil _ _, ?_⟩
      obtain ⟨segment, others, ⟨hl, rfl⟩, hrest, hf⟩ := List.forall₂_cons_right_iff.1 h
      obtain ⟨rfl, rfl⟩ | ⟨comma, rest, hc, rfl, rfl⟩ := eq_of_fields_eq_cons hf
      · cases hrest
        exact .last hl
      · obtain ⟨hne, hrest⟩ := ih hrest
        obtain ⟨other, more, rfl⟩ := List.exists_cons_of_ne_nil hne
        exact .next hl (of_decide_eq_true hc) hrest
  · rintro ⟨hne, h⟩
    induction h with
    | none => exact absurd rfl hne
    | @last parameter hl =>
      rw [fields_of_none hl.forall_ne_comma]
      exact .cons ⟨hl, rfl⟩ .nil
    | @next parameter other parameters comma tokens hl hc hrest ih =>
      rw [fields_append_separator hl.forall_ne_comma (decide_eq_true hc)]
      exact .cons ⟨hl, rfl⟩ (ih (List.cons_ne_nil _ _))

theorem listOfTokens_eq_ok : listOfTokens tokens = .ok parameters ↔ Listed parameters tokens := by
  unfold listOfTokens
  split
  next hl =>
    rw [List.getLast?_eq_none_iff.1 hl, Except.ok.injEq]
    constructor
    · rintro rfl
      exact .none
    · exact fun h => (h.eq_nil_iff.2 rfl).symm
  next last hl =>
    simp only [Except.mapM_eq_ok, ofTokens_eq_ok, forall_fields_iff, and_iff_right_iff_imp]
    rintro h rfl
    rw [h.eq_nil_iff.1 rfl] at hl
    cases hl

end Parameter

/-! ## Heads -/

namespace Signature

variable {tokens inner : List Token} {start : Nat} {signature : Signature} {allowBare : Bool}

theorem parenthesized_eq_ok : parenthesized tokens start = .ok inner ↔
    ∃ opening closing, opening.kind = .openParen ∧ closing.kind = .closeParen ∧
      tokens.drop start = opening :: (inner ++ [closing]) := by
  refine ⟨of_parenthesized, ?_⟩
  rintro ⟨opening, closing, ho, hc, hd⟩
  -- What stands before the parentheses has `start` tokens.
  have hlt : start < tokens.length := by
    by_contra hge
    rw [List.drop_eq_nil_of_le (Nat.le_of_not_lt hge)] at hd
    cases hd
  obtain ⟨before, rfl, rfl⟩ : ∃ before, before.length = start ∧
      tokens = before ++ opening :: (inner ++ [closing]) :=
    ⟨tokens.take start, List.length_take_of_le hlt.le, by rw [← hd, List.take_append_drop]⟩
  simp only [parenthesized, Except.bind_eq_ok, Except.ite_eq_ok, Except.pure_eq_ok,
    Except.throw_ne_ok, Token.expectAt_eq_ok, Token.tokenAt_eq_ok]
  refine ⟨opening, ⟨by simp, decide_eq_true ho⟩, closing, ?_, .inr ⟨?_, ?_⟩⟩
  · simp
  · simp [hc]
  · simp

/-- Just the tokens of a head are read as a signature, and as the signature that they spell. -/
theorem ofTokens_iff_heads :
    ofTokens tokens allowBare = .ok signature ↔ Heads allowBare tokens signature := by
  simp only [ofTokens, Except.bind_eq_ok, Except.ite_eq_ok, Except.pure_eq_ok, Token.expectAt_eq_ok,
    Token.expectName_eq_ok, parenthesized_eq_ok, Parameter.listOfTokens_eq_ok, decide_eq_true_iff]
  constructor
  · rintro ⟨keyword, ⟨h0, hk⟩, identifier, ⟨h1, hi⟩, h⟩
    have htokens : tokens = keyword :: identifier :: tokens.drop 2 := by
      rw [← drop_of_getElem? h1, ← drop_of_getElem? h0, List.drop_zero]
    obtain ⟨hb, rfl⟩ | ⟨-, mark, ⟨h2, hm⟩, h⟩ := h
    · obtain ⟨ha, hlength⟩ := Bool.and_eq_true_iff.1 hb
      have hend : tokens.drop 2 = [] :=
        List.drop_eq_nil_of_le (Nat.le_of_eq (of_decide_eq_true hlength))
      rw [htokens, hend]
      exact .bare ha hk hi
    rw [drop_of_getElem? h2] at htokens
    obtain ⟨ht, inner, ⟨opening, closing, ho, hc, hd⟩, parameters, hl, rfl⟩ |
      ⟨ht, returnType, ⟨h3, hr⟩, inner, ⟨opening, closing, ho, hc, hd⟩, parameters, hl, rfl⟩ := h
    · rw [htokens, hd]
      exact .void hk hi ht ho hl hc
    · rw [htokens, drop_of_getElem? h3, hd]
      obtain ⟨name, hr⟩ := Kind.isTypeName_iff.1 hr
      exact .typed hk hi (by simpa [ht] using hm) hr ho hl hc
  · intro h
    cases h with
    | @bare keyword identifier ha hk hi =>
      exact ⟨keyword, ⟨rfl, hk⟩, identifier, ⟨rfl, hi⟩, .inl ⟨by simp [ha], rfl⟩⟩
    | @void keyword identifier mark opening closing inner parameters hk hi hm ho hl hc =>
      refine ⟨keyword, ⟨rfl, hk⟩, identifier, ⟨rfl, hi⟩, .inr ⟨by simp, mark, ⟨rfl, by simp [hm]⟩, ?_⟩⟩
      exact .inl ⟨hm, inner, ⟨opening, closing, ho, hc, rfl⟩, parameters, hl, rfl⟩
    | @typed keyword identifier mark returnType opening closing inner parameters name hk hi hm hr ho hl
        hc =>
      refine ⟨keyword, ⟨rfl, hk⟩, identifier, ⟨rfl, hi⟩, .inr ⟨by simp, mark, ⟨rfl, by simp [hm]⟩, ?_⟩⟩
      exact .inr ⟨by simp [hm], returnType, ⟨rfl, Kind.isTypeName_iff.2 ⟨name, hr⟩⟩, inner,
        ⟨opening, closing, ho, hc, rfl⟩, parameters, hl, rfl⟩

/-- No comma follows the last parameter. -/
example :
    let head : List Token := [.synthetic (.keyword .fnWord) "fn", .synthetic .identifier "f",
      .synthetic .tilde "~", .synthetic .openParen "(", .synthetic (.typeName .int) "int",
      .synthetic .identifier "n"]
    (ofTokens (head ++ [.synthetic .closeParen ")"]) false).isOk ∧
      (ofTokens (head ++ [.synthetic .comma ",", .synthetic .closeParen ")"]) false).isOk = false := by
  decide

end Signature

end MuLang
