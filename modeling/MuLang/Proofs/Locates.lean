import MuLang.Proofs.Located

/-!
# Statements fail where their tokens stand

Each sort of statement is gone through: whatever it fails with, or reports on its way, stands at one
of its tokens, or at one of those that a loop, a counting action or a missing return type makes up.
-/
namespace MuLang.Step

open Error (Concerns)
open Token (Has Delimited)

variable {α : Type} {source tokens modifiers : List Token}
  {token identifier operator keyword : Token} {cause : Cause}

/-- Whatever a step fails with or reports stands where the program or its forms allow. -/
abbrev Locates (source : List Token) (step : Step α) : Prop := Raises (Located source) step

theorem locates_fail (h : token ∈ source) : Locates source (fail cause token : Step α) :=
  raises_fail (located_atToken h cause)

theorem locates_expression (hs : tokens ⊆ source) {context : Token} (hc : context ∈ source) :
    Locates source (expression tokens context) :=
  raises_check fun env => env.raises_located hs hc

theorem locates_rejectModifiers (hm : modifiers ⊆ source) :
    Locates source (rejectModifiers modifiers) := by
  unfold rejectModifiers
  split
  next modifier h => exact locates_fail (hm (List.mem_of_head? h))
  · exact .pure _

theorem locates_rejectInvalidModifiers (hm : modifiers ⊆ source) (target : String)
    (invalid : Modifier → Bool) :
    Locates source (rejectInvalidModifiers modifiers target invalid) := by
  unfold rejectInvalidModifiers
  split
  next modifier h => exact locates_fail (hm (List.mem_of_find?_eq_some h))
  · exact .pure _

theorem locates_requireFunction (h : token ∈ source) (what : String) :
    Locates source (requireFunction token what) :=
  .get_bind fun _ => .ite (fun _ => locates_fail h) fun _ => .pure _

theorem locates_checkFunctionPlacement (h : token ∈ source) (hm : modifiers ⊆ source) :
    Locates source (checkFunctionPlacement token modifiers) := by
  unfold checkFunctionPlacement
  refine .get_bind fun s => .ite (fun _ => ?_) fun _ => locates_rejectInvalidModifiers hm _ _
  rw [fail_bind]
  exact locates_fail h

/-! ## Declarations -/

variable {first : Token} {rest : List Token}

theorem locates_moduleStatement (hs : first :: rest ⊆ source) (hm : modifiers ⊆ source) :
    Locates source (moduleStatement (first :: rest) modifiers) := by
  have hn : first :: rest ≠ [] := List.cons_ne_nil first rest
  simp only [moduleStatement, fail_bind, Fallible.throw_bind]
  refine .bind (locates_rejectModifiers hm) fun _ _ _ _ => ?_
  refine .ofExcept_bind (fun _ h => Token.located_of_expectName hs hn h) fun identifier hi => ?_
  refine .ofExcept_bind (fun _ h => Token.located_of_expectAt hs hn h) fun _ _ => ?_
  refine .ofExcept_bind (fun _ h => Token.located_of_expectEnd hs h) fun _ _ => ?_
  refine .ofExcept_bind (fun _ h => Token.located_of_tokenAt hs hn h) fun keyword hk =>
    .get_bind fun s => .ite (fun _ => locates_fail (hs (Token.mem_of_tokenAt hk)))
    fun _ => .get_bind fun s => .ite (fun _ => .get_bind fun s => ?_) fun _ => ?_
  · split
    · refine .bind (.modify fun _ => rfl) fun _ _ _ _ => ?_
      exact .bind (raises_changeScopes _) fun _ _ _ _ => .isSkimming_bind fun _ =>
        .ite (fun _ => .pure _) fun _ => .pure _
    · exact .throw (.start (hs (Token.mem_of_expectName hi)) rfl)
  · exact .bind (raises_changeScopes _) fun _ _ _ _ => .isSkimming_bind fun _ =>
      .ite (fun _ => .pure _) fun _ => .pure _

/-- A parameter whose name is taken is reported at a name of the head. -/
theorem located_atParameter {header : FunctionHeader} (h : header.Drawn source) (name : String)
    (conflict : Conflict) : Located source (conflict.toError (parameterPlace header name)) := by
  unfold parameterPlace
  split
  next parameter hp =>
    have hm := List.mem_reverse.1 (List.mem_of_find?_eq_some hp)
    exact .start (h.parameters parameter hm).2 rfl
  · exact .start h.identifier rfl

theorem locates_declareParameters {header : FunctionHeader} (h : header.Drawn source)
    (parameters : List FunctionParameter) :
    Locates source (declareParameters header parameters) := by
  induction parameters with
  | nil => exact .pure _
  | cons parameter rest ih =>
    unfold declareParameters
    refine .get_bind fun s => ?_
    dsimp only
    split
    · exact .bind (raises_changeScopes _) fun _ _ _ _ => ih
    · exact .throw (located_atParameter h _ _)

theorem locates_functionStatement (hs : first :: rest ⊆ source) (hl : 1 < (first :: rest).length)
    (hm : modifiers ⊆ source) : Locates source (functionStatement (first :: rest) modifiers) := by
  have hhead : (first :: rest).dropLast ⊆ source := List.Subset.trans (List.dropLast_subset _) hs
  have hn : (first :: rest).dropLast ≠ [] := by
    intro hc
    have := congrArg List.length hc
    simp only [List.length_dropLast, List.length_nil] at this
    omega
  unfold functionStatement
  refine .ofExcept_bind (fun _ h => absurd h Token.not_error_of_first) fun keyword hk => ?_
  refine .bind (locates_checkFunctionPlacement (hs (Token.mem_of_tokenAt hk)) hm) fun _ _ _ _ => ?_
  refine .ofExcept_bind (fun _ h => Signature.located_of_ofTokens hhead hn h) fun signature hg => ?_
  have hd := (Signature.spelled_of_ofTokens hg).drawn hhead hm
  have ht : signature.returnType ∈ source ∨ signature.returnType = voidToken :=
    (Signature.spelled_of_ofTokens hg).returnType hhead
  refine .ofExcept_bind (fun _ h => FunctionHeader.located_of_definition ht h) fun _ _ => ?_
  refine .isSkimming_bind fun _ => .ite (fun _ => ?_) fun _ => ?_
  · exact .bind (raises_registerFunction _) fun _ _ _ _ =>
      .bind (raises_changeScopes _) fun _ _ _ _ => .pure _
  · exact .bind (raises_changeScopes _) fun _ _ _ _ =>
      .bind (locates_declareParameters hd _) fun _ _ _ _ => .pure _

theorem locates_nativeStatement (hs : first :: rest ⊆ source) (hm : modifiers ⊆ source) :
    Locates source (nativeStatement (first :: rest) modifiers) := by
  have hn : first :: rest ≠ [] := List.cons_ne_nil first rest
  simp only [nativeStatement, fail_bind]
  refine .ofExcept_bind (fun _ h => absurd h Token.not_error_of_first) fun keyword hk => ?_
  refine .bind (locates_checkFunctionPlacement (hs (Token.mem_of_tokenAt hk)) hm) fun _ _ _ _ =>
    .ite (fun _ => ?_) fun hlength => ?_
  · exact .ofExcept_bind (fun _ h => Token.located_of_tokenAt hs hn h) fun last hl =>
      locates_fail (hs (Token.mem_of_tokenAt hl))
  · have hhead : ((first :: rest).take ((first :: rest).length - 3)).tail ⊆ source :=
      List.Subset.trans
        (List.Subset.trans (List.tail_sublist _).subset (List.take_subset _ _)) hs
    have hne : ((first :: rest).take ((first :: rest).length - 3)).tail ≠ [] := by
      intro hc
      have := congrArg List.length hc
      simp only [List.length_tail, List.length_take, List.length_nil] at this
      omega
    refine .ofExcept_bind (fun _ h => Token.located_of_expectAt hs hn h) fun _ _ => ?_
    refine .ofExcept_bind (fun _ h => Token.located_of_expectAt hs hn h) fun _ _ => ?_
    refine .ofExcept_bind (fun _ h => Signature.located_of_ofTokens hhead hne h)
      fun signature hg => ?_
    have ht : signature.returnType ∈ source ∨ signature.returnType = voidToken :=
      (Signature.spelled_of_ofTokens hg).returnType hhead
    refine .ofExcept_bind (fun _ h => FunctionHeader.located_of_definition ht h) fun _ _ => ?_
    refine .isSkimming_bind fun _ => .ite (fun _ => ?_) fun _ => .pure _
    exact .bind (raises_registerFunction _) fun _ _ _ _ => .pure _

theorem locates_placeVariable {form : VariableForm} (hf : form.Drawn source)
    (hm : modifiers ⊆ source) : Locates source (placeVariable form modifiers) := by
  simp only [placeVariable, fail_bind]
  refine .get_bind fun s => .get_bind fun _ => .ite (fun _ => locates_fail hf.identifier) fun _ =>
    .ite (fun _ => .ite (fun _ => locates_fail hf.identifier) fun _ => .pure _) fun _ => ?_
  exact .bind (locates_rejectInvalidModifiers hm _ _) fun _ _ _ _ => .pure _

theorem locates_declareVariable (h : identifier ∈ source) (v : Variable) (isGlobal : Bool) :
    Locates source (declareVariable identifier v isGlobal) := by
  refine .of_keeps (fun s => ?_) fun s error t he => ?_
  · exact congrArg Log.errors (log_declareVariable identifier v isGlobal s)
  · rw [declareVariable_apply] at he
    split at he
    · split at he
      · split at he <;> cases he
        exact .start h rfl
      · cases he
    · split at he <;> cases he
      exact .start h rfl

theorem located_of_declaredType (h : keyword ∈ source) {typed : Option Expr} {error : Error}
    (he : declaredType keyword modifiers typed = .error error) : Located source error := by
  unfold declaredType at he
  split at he
  · split at he <;> cases he
    exact located_atToken h _
  · split at he <;> cases he
    exact located_atToken h _

theorem located_of_checkInitial (h : identifier ∈ source) {type : Datatype} {typed : Option Expr}
    {error : Error} (he : checkInitial identifier type typed = .error error) :
    Located source error := by
  unfold checkInitial at he
  split at he
  · cases he
  · split at he <;> cases he
    exact located_atToken h _

theorem locates_declareTyped {form : VariableForm} (hf : form.Drawn source) (modifiers : List Token)
    (isGlobal : Bool) (typed : Option Expr) :
    Locates source (declareTyped form modifiers isGlobal typed) := by
  unfold declareTyped
  refine .ofExcept_bind (fun _ h => located_of_declaredType hf.typeKeyword h) fun _ _ => ?_
  refine .ofExcept_bind (fun _ h => located_of_checkInitial hf.identifier h) fun _ _ => ?_
  refine .bind (locates_declareVariable hf.identifier _ _) fun _ _ _ _ => ?_
  split <;> exact .pure _

theorem locates_evaluateVariable {form : VariableForm} (hf : form.Drawn source)
    (modifiers : List Token) (isGlobal : Bool) :
    Locates source (evaluateVariable form modifiers isGlobal) := by
  unfold evaluateVariable
  split
  next value hv =>
    obtain ⟨hs, hmark⟩ := hf.value value hv
    exact .bind (locates_expression hs hmark) fun _ _ _ _ => locates_declareTyped hf _ _ _
  · exact locates_declareTyped hf _ _ _

theorem locates_variableStatement (hd : Delimited source (first :: rest))
    (hk : first.kind.isStop = false) (hm : modifiers ⊆ source) :
    Locates source (variableStatement (first :: rest) modifiers) := by
  unfold variableStatement
  refine .ofExcept_bind (fun _ h => VariableForm.located_of_ofTokens hd hk h) fun form h => ?_
  have hf := VariableForm.drawn_of_ofTokens hd hk h
  refine .bind (locates_placeVariable hf hm) fun _ _ _ _ => .isSkimming_bind fun _ =>
    .ite (fun _ => .ite (fun _ => ?_) fun _ => .pure _) fun _ => locates_evaluateVariable hf _ _
  exact .bind (raises_skimGlobal _ _ _ _) fun _ _ _ _ => .pure _

/-! ## Assignments and calls -/

theorem locates_assignStatement (hi : identifier ∈ source) (ho : operator ∈ source) {value : Expr}
    (hv : ∃ word ∈ source, value.span = word.span) :
    Locates source (assignStatement identifier operator value) := by
  unfold assignStatement
  refine .isSkimming_bind fun _ => .ite (fun _ => .pure _) fun _ => ?_
  refine .bind (raises_check fun env => env.raises_of_assign _ _ _ fun _ _ h => ?_)
    fun _ _ _ _ => .pure _
  obtain hp | ⟨operands, rfl⟩ | ⟨v, stored, -, -, rfl⟩ := Env.cases_of_assign h
  · exact .start hi hp.position_eq
  · exact located_atToken ho _
  · obtain ⟨word, hw, hs⟩ := hv
    exact .start hw (congrArg Span.start hs)

/-- A number that is counted up or down stays in its type, but a `char` does not. -/
theorem fits_of_sum {op : BinaryOp} (ho : op = .add ∨ op = .subtract) (target : Datatype) :
    ∀ type ∈ Datatype.binary op target (.plain .int),
      type.fits target ∨ type = .plain .int ∧ ∃ nullable, target = ⟨.char, nullable⟩ := by
  obtain ⟨kind, nullable⟩ := target
  cases kind with
  | char => obtain rfl | rfl := ho <;> rintro type ⟨⟩ <;> exact .inr ⟨rfl, nullable, rfl⟩
  | _ => obtain rfl | rfl := ho <;> rintro type ⟨⟩ <;> exact .inl rfl

theorem compound_of_counts {source : List Token} {operator : Token} (h : Counts source operator) :
    ∃ op, (op = .add ∨ op = .subtract) ∧ operator.kind.compound? = some op := by
  cases h with
  | decrement => exact ⟨_, .inr rfl, rfl⟩
  | _ => exact ⟨_, .inl rfl, rfl⟩

/-- A sum that does not fit where it is counted is an `int` for a `char`. -/
theorem widened_of_assigned (hc : Counts source operator) {v : Variable} {type : Datatype}
    (ha : Env.assigned v operator one = .ok type) (hf : type.fits v.datatype = false) :
    type = .plain .int ∧ ∃ nullable, v.datatype = ⟨.char, nullable⟩ := by
  obtain ⟨op, ho, hk⟩ := compound_of_counts hc
  unfold Env.assigned at ha
  rw [hk] at ha
  dsimp only at ha
  split at ha <;> cases ha
  next hb =>
    obtain hfits | hw := fits_of_sum ho v.datatype type hb
    · rw [hf] at hfits
      cases hfits
    · exact hw

theorem locates_counting (hi : identifier ∈ source) (hc : Counts source operator) :
    Locates source (assignStatement identifier operator one) := by
  unfold assignStatement
  refine .isSkimming_bind fun _ => .ite (fun _ => .pure _) fun _ => ?_
  refine .bind (raises_check fun env => env.raises_of_assign _ _ _ fun _ _ h => ?_)
    fun _ _ _ _ => .pure _
  obtain hp | ⟨operands, rfl⟩ | ⟨v, stored, ha, hf, rfl⟩ := Env.cases_of_assign h
  · exact .start hi hp.position_eq
  · exact .nowhere (.count operands hc)
  · obtain ⟨rfl, nullable, hv⟩ := widened_of_assigned hc ha hf
    rw [hv]
    exact .nowhere (.widened nullable hc)

theorem locates_actionStatement (hd : Delimited source (first :: rest))
    (hk : first.kind.isStop = false) (hm : modifiers ⊆ source) :
    Locates source (actionStatement (first :: rest) modifiers) := by
  have hl := hd.stopped.second hk
  have hfirst : first ∈ source := hd.mem List.mem_cons_self hk
  -- What follows `++` or `--` is the end of the statement, or stands before it.
  have expectEnd {next : Token} (hn : (first :: rest)[1]? = some next)
      (hs : next.kind.isStop = false) {error : Error}
      (he : Token.expectEnd (first :: rest) 3 = .error error) : Located source error := by
    have hlong := hd.stopped.lt_length hn hs
    unfold Token.expectEnd at he
    split at he
    · cases he
    next hne =>
      split at he <;> cases he
      next extra hx =>
        refine located_atToken (hd.body (List.mem_of_getElem? (i := 2) ?_)) _
        rw [List.getElem?_dropLast, if_pos (by omega)]
        exact hx
  unfold actionStatement
  refine .bind (locates_rejectModifiers hm) fun _ _ _ _ => ?_
  refine .ofExcept_bind (fun _ h => absurd h Token.not_error_of_first) fun identifier hi => ?_
  cases hi
  refine .bind (locates_requireFunction hfirst _) fun _ _ _ _ => ?_
  refine .ofExcept_bind (fun _ h => absurd h (Token.not_error_of_lt hl)) fun next hn => ?_
  have hnext := Token.getElem?_of_tokenAt hn
  have hmem := Token.mem_of_tokenAt hn
  generalize hkind : next.kind = kind
  split
  · refine .isSkimming_bind fun _ => .ite (fun _ => .pure _) fun _ => ?_
    refine .bind (locates_expression hd.body hfirst) fun value _ _ _ => ?_
    split
    · exact .pure _
    · exact locates_fail hfirst
  · have hsource := hd.mem hmem (by rw [hkind]; rfl)
    exact .ofExcept_bind (fun _ h => expectEnd hnext (by rw [hkind]; rfl) h) fun _ _ =>
      .ite (fun _ => locates_counting hfirst (.increment ⟨next, hsource, hkind⟩)) fun _ => .pure _
  · have hsource := hd.mem hmem (by rw [hkind]; rfl)
    exact .ofExcept_bind (fun _ h => expectEnd hnext (by rw [hkind]; rfl) h) fun _ _ =>
      .ite (fun _ => locates_counting hfirst (.decrement ⟨next, hsource, hkind⟩)) fun _ => .pure _
  next op =>
    have hsource := hd.mem hmem (by rw [hkind]; rfl)
    refine .isSkimming_bind fun _ => .ite (fun _ => .pure _) fun _ => ?_
    refine .ofExcept_bind (fun _ h => ?_) fun value hv =>
      .bind (locates_expression (hd.valueFrom hv) hsource) fun s typed t hx =>
        locates_assignStatement hfirst hsource ?_
    · have hl := hd.stopped.lt_length hnext (by rw [hkind]; rfl)
      rw [Token.valueFrom, if_pos hl] at h
      cases h
    · obtain ⟨scopes, hx, -⟩ := expression_eq_ok.1 hx
      obtain ⟨word, hw, hs⟩ := typed.exists_word_of_span
      rw [Env.words_of_expression hx] at hw
      exact ⟨word, hd.valueFrom hv (List.mem_filter.1 hw).1, hs⟩
  · obtain hs | ⟨rfl, hf⟩ := hd.mem_or hmem
    · exact locates_fail hs
    · exact raises_fail (.nowhere (.step hf))

/-! ## Branches and loops -/

theorem locates_conditionOf {test : List Token} (hk : keyword ∈ source)
    (h : Locates source (expression test keyword)) : Locates source (condition test keyword) := by
  simp only [condition, fail_bind]
  exact .bind h fun _ _ _ _ => .ite (fun _ => locates_fail hk) fun _ => .pure _

theorem locates_condition (hs : tokens ⊆ source) (hk : keyword ∈ source) :
    Locates source (condition tokens keyword) :=
  locates_conditionOf hk (locates_expression hs hk)

theorem locates_ifStatement (hs : first :: rest ⊆ source) (hm : modifiers ⊆ source) :
    Locates source (ifStatement (first :: rest) modifiers) := by
  unfold ifStatement
  refine .bind (locates_rejectModifiers hm) fun _ _ _ _ => ?_
  refine .ofExcept_bind (fun _ h => absurd h Token.not_error_of_first) fun keyword h => ?_
  have hk := hs (Token.mem_of_tokenAt h)
  refine .bind (locates_requireFunction hk _) fun _ _ _ _ => ?_
  refine .bind (raises_changeScopes _) fun _ _ _ _ => .isSkimming_bind fun _ =>
    .ite (fun _ => .pure _) fun _ => ?_
  exact .bind (locates_condition (List.Subset.trans (Token.inner_subset _) hs) hk)
    fun _ _ _ _ => .pure _

theorem locates_whileStatement (hs : first :: rest ⊆ source) (hm : modifiers ⊆ source) :
    Locates source (whileStatement (first :: rest) modifiers) := by
  unfold whileStatement
  refine .bind (locates_rejectModifiers hm) fun _ _ _ _ => ?_
  refine .ofExcept_bind (fun _ h => absurd h Token.not_error_of_first) fun keyword h => ?_
  have hk := hs (Token.mem_of_tokenAt h)
  refine .bind (locates_requireFunction hk _) fun _ _ _ _ => ?_
  refine .bind (raises_changeScopes _) fun _ _ _ _ => .isSkimming_bind fun _ =>
    .ite (fun _ => .pure _) fun _ => ?_
  exact .bind (locates_condition (List.Subset.trans (Token.inner_subset _) hs) hk)
    fun _ _ _ _ => .pure _

theorem locates_expectStart (hs : ∀ first ∈ tokens.head?, first ∈ source) (hk : keyword ∈ source)
    (accepts : Kind → Bool) (expected : String) :
    Locates source (expectStart tokens keyword accepts expected) := by
  unfold expectStart
  split
  next first h => exact .ite (fun _ => .pure _) fun _ => locates_fail (hs first h)
  · exact locates_fail hk

theorem isStop_of_isTypeName {kind : Kind} (h : kind.isTypeName) : kind.isStop = false := by
  unfold Kind.isTypeName Kind.typeName? at h
  split at h
  · rfl
  · cases h

/-- The parts of a loop's head are read like statements and conditions of their own. -/
theorem locates_loopStatement {init test step : List Token} (hk : keyword ∈ source)
    (hf : keyword.kind = .keyword .forWord) (hi : init ⊆ source)
    (ht : Locates source (expression test keyword)) (hs : ∀ first ∈ step.head?, first ∈ source)
    (ha : (∃ first ∈ step.head?, first.kind = .identifier) →
      Locates source (actionStatement (terminated step) [])) :
    Locates source (loopStatement keyword init test step) := by
  have hfor : Has source (.keyword .forWord) := ⟨keyword, hk, hf⟩
  have hrest := List.Subset.trans (Token.afterModifiers_subset init) hi
  simp only [loopStatement, fail_bind]
  refine .bind (locates_expectStart (fun first h => hrest (List.mem_of_head? h)) hk _ _)
    fun s _ _ hstart => ?_
  have hd : Locates source (variableStatement (terminated (Token.afterModifiers init))
      (Token.leadingModifiers init)) := by
    cases hr : Token.afterModifiers init with
    | nil =>
      rw [hr] at hstart
      exact absurd hstart (by simp [expectStart])
    | cons first rest =>
      rw [hr] at hstart hrest
      have hd : Delimited source (first :: (rest ++ [.synthetic .semicolon ";"])) :=
        Token.delimited_terminated hrest hfor
      have hstop : first.kind.isStop = false := by
        simp [expectStart] at hstart
        obtain ⟨h | h, -⟩ := hstart
        · exact isStop_of_isTypeName h
        · rw [h]
          rfl
      exact locates_variableStatement hd hstop
        (List.Subset.trans (Token.leadingModifiers_subset init) hi)
  refine .bind (locates_expectStart hs hk _ _) fun s _ _ hstep => ?_
  have hs : Locates source (actionStatement (terminated step) []) := by
    refine ha ?_
    cases step with
    | nil => exact absurd hstep (by simp [expectStart])
    | cons first rest =>
      simp [expectStart] at hstep
      exact ⟨first, rfl, hstep.1⟩
  refine .isSkimming_bind fun _ => .ite (fun _ => ?_) fun _ => ?_
  · refine .bind (raises_reporting hd) fun _ _ _ _ => .ite (fun _ => locates_fail hk) fun _ => ?_
    exact .bind (raises_changeScopes _) fun _ _ _ _ => .pure _
  · refine .bind hd fun _ declared _ _ => ?_
    split
    · exact .pure _
    · exact locates_fail hk
    · refine .bind (locates_conditionOf hk ht) fun _ _ _ _ => .bind hs fun _ _ _ _ => ?_
      split
      · exact .pure _
      · exact .bind (raises_changeScopes _) fun _ _ _ _ => .pure _

/-- Each part of a loop's head is made of its tokens. -/
theorem subset_of_mem_headParts {depth : Nat} {part : List Token}
    (h : part ∈ headParts depth tokens) : part ⊆ tokens := by
  have hp := parted_headParts depth tokens
  generalize headParts depth tokens = parts at h hp
  induction hp with
  | last =>
    rw [List.mem_singleton.1 h]
    exact List.Subset.refl _
  | next _ _ ih =>
    obtain rfl | h := List.mem_cons.1 h
    · exact List.subset_append_left _ _
    · exact List.Subset.trans (ih h) fun token ht => by simp [ht]

/-- The step of an arrow counts the loop's variable up. -/
theorem locates_arrowStep {counter : Token} (hc : counter ∈ source)
    (hf : Has source (.keyword .forWord)) (ha : Has source .arrow) :
    Locates source (actionStatement (terminated [counter, .synthetic .plusPlus "++"]) []) := by
  unfold actionStatement
  refine .bind (locates_rejectModifiers (List.nil_subset _)) fun _ _ _ _ => ?_
  refine .ofExcept_bind (fun _ h => absurd h Token.not_error_of_first) fun identifier hi => ?_
  cases hi
  refine .bind (locates_requireFunction hc _) fun _ _ _ _ => ?_
  refine .ofExcept_bind (fun _ h => by cases h) fun next hn => ?_
  cases hn
  exact .ofExcept_bind (fun _ h => by cases h) fun _ _ =>
    .ite (fun _ => locates_counting hc (.arrow hf ha)) fun _ => .pure _

theorem locates_forStatement (hs : first :: rest ⊆ source) (hf : first.kind = .keyword .forWord)
    (hm : modifiers ⊆ source) : Locates source (forStatement (first :: rest) modifiers) := by
  have hinner := List.Subset.trans (Token.inner_subset (first :: rest)) hs
  have hfirst : first ∈ source := hs List.mem_cons_self
  have hfor : Has source (.keyword .forWord) := ⟨first, hfirst, hf⟩
  have hparts : ∀ part ∈ headParts 0 (Token.inner (first :: rest)), part ⊆ source :=
    fun part hp => List.Subset.trans (subset_of_mem_headParts hp) hinner
  unfold forStatement
  refine .bind (locates_rejectModifiers hm) fun _ _ _ _ => ?_
  refine .ofExcept_bind (fun _ h => absurd h Token.not_error_of_first) fun keyword h => ?_
  cases h
  refine .bind (locates_requireFunction hfirst _) fun _ _ _ _ => ?_
  refine .bind (raises_changeScopes _) fun _ _ _ _ => ?_
  generalize headParts 0 (Token.inner (first :: rest)) = parts at hparts
  split
  next init test step =>
    have hstep : step ⊆ source := hparts step (by simp)
    refine locates_loopStatement hfirst hf (hparts init (by simp))
      (locates_expression (hparts test (by simp)) hfirst)
      (fun token ht => hstep (List.mem_of_head? ht)) ?_
    rintro ⟨name, hh, hk⟩
    obtain ⟨more, rfl⟩ : ∃ more, step = name :: more := by
      cases step with
      | nil => cases hh
      | cons name more => cases hh; exact ⟨more, rfl⟩
    have hd : Delimited source (name :: (more ++ [.synthetic .semicolon ";"])) :=
      Token.delimited_terminated hstep hfor
    exact locates_actionStatement hd (by rw [hk]; rfl) (List.nil_subset _)
  next init transition =>
    have htransition : transition ⊆ source := hparts transition (by simp)
    split
    next counter arrow limit =>
      have hcounter : counter ∈ source := htransition (by simp)
      refine .ite (fun hc => ?_) fun _ => locates_fail hcounter
      have harrow : Has source .arrow := ⟨arrow, htransition (by simp), hc.2.1⟩
      have hlimit : limit ⊆ source := fun token ht => htransition (by simp [ht])
      refine locates_loopStatement hfirst hf (hparts init (by simp)) ?_ ?_
        fun _ => locates_arrowStep hcounter hfor harrow
      · exact raises_check fun env => env.raises_comparison hc.1 hcounter hlimit hfor harrow first
      · rintro _ ⟨⟩
        exact hcounter
    next =>
      refine locates_fail ?_
      cases transition with
      | nil => exact hfirst
      | cons place _ => exact htransition List.mem_cons_self
  · exact locates_fail hfirst

/-! ## Leaving -/

theorem locates_returnStatement (hs : first :: rest ⊆ source) (hm : modifiers ⊆ source) :
    Locates source (returnStatement (first :: rest) modifiers) := by
  have hinner := List.Subset.trans (Token.inner_subset (first :: rest)) hs
  have hfirst : first ∈ source := hs List.mem_cons_self
  have hx := locates_expression hinner hfirst
  simp only [returnStatement, fail_bind]
  refine .bind (locates_rejectModifiers hm) fun _ _ _ _ => ?_
  refine .ofExcept_bind (fun _ h => absurd h Token.not_error_of_first) fun keyword h => ?_
  cases h
  refine .bind (locates_requireFunction hfirst _) fun _ _ _ _ => ?_
  refine .isSkimming_bind fun _ => .ite (fun _ => .pure _) fun _ => .get_bind fun s => ?_
  split
  · refine .ite (fun _ => .ite (fun _ => locates_fail hfirst) fun _ => .pure _) fun _ =>
      .ite (fun _ => locates_fail hfirst) fun _ => ?_
    exact .bind hx fun _ _ _ _ => .ite (fun _ => locates_fail hfirst) fun _ => .pure _
  · exact .ite (fun _ => .pure _) fun _ => .bind hx fun _ _ _ _ => .pure _

theorem locates_finishStatement (hs : first :: rest ⊆ source) (hm : modifiers ⊆ source) :
    Locates source (finishStatement (first :: rest) modifiers) := by
  unfold finishStatement
  refine .bind (locates_rejectModifiers hm) fun _ _ _ _ => ?_
  refine .ofExcept_bind (fun _ h => absurd h Token.not_error_of_first) fun _ _ => ?_
  refine .ofExcept_bind (fun _ h => Token.located_of_expectEnd hs h) fun _ _ => ?_
  refine .ite (fun _ => .pure _) fun _ => .bind (.modify fun _ => rfl) fun _ _ _ _ => ?_
  exact .isSkimming_bind fun _ => .ite (fun _ => .pure _) fun _ => .pure _

/-! ## Any statement -/

theorem locates_statement (hs : tokens ⊆ source) (hstop : Token.Stopped tokens) :
    Locates source (statement tokens) := by
  have hm := List.Subset.trans (Token.leadingModifiers_subset tokens) hs
  simp only [statement, fail_bind]
  cases hr : Token.afterModifiers tokens with
  | nil => exact .pure _
  | cons first rest =>
    have hs : first :: rest ⊆ source :=
      hr ▸ List.Subset.trans (Token.afterModifiers_subset tokens) hs
    have hstop := hstop.afterModifiers hr
    have hd := Token.delimited_of_subset hs hstop
    have hfirst : first ∈ source := hs List.mem_cons_self
    dsimp only
    split
    · exact locates_moduleStatement hs hm
    next hk => exact locates_functionStatement hs (hstop.second (by rw [hk]; rfl)) hm
    · exact locates_nativeStatement hs hm
    · exact .bind (locates_ifStatement hs hm) fun _ _ _ _ => .pure _
    · exact locates_whileStatement hs hm
    next hk => exact locates_forStatement hs hk hm
    · exact locates_returnStatement hs hm
    · exact locates_finishStatement hs hm
    next hk => exact .bind (locates_actionStatement hd (by rw [hk]; rfl) hm) fun _ _ _ _ => .pure _
    next hk =>
      exact .bind (locates_variableStatement hd (by rw [hk]; rfl) hm) fun _ _ _ _ => .pure _
    next hk =>
      exact .bind (locates_variableStatement hd (by rw [hk]; rfl) hm) fun _ _ _ _ => .pure _
    · exact .ite (fun _ => locates_fail hfirst) fun _ =>
        .ite (fun _ => locates_fail hfirst) fun _ => .pure _
    · exact locates_fail hfirst

/-- Whatever is wrong with a statement without a block stands where its tokens or its form allow. -/
theorem locates_closed (hs : tokens ⊆ source) (hstop : Token.Stopped tokens) :
    Locates source (closed tokens) := by
  unfold closed
  split
  · exact .ofExcept_bind (fun _ h => Token.located_of_tokenAt hs hstop.ne_nil h) fun last hl =>
      locates_fail (hs (Token.mem_of_tokenAt hl))
  · exact locates_statement hs hstop

theorem locates_elseOwner (hs : first :: rest ⊆ source) (chain : Chain)
    (hm : modifiers ⊆ source) : Locates source (elseOwner chain (first :: rest) modifiers) := by
  have hn : first :: rest ≠ [] := List.cons_ne_nil first rest
  have hfirst : first ∈ source := hs List.mem_cons_self
  simp only [elseOwner, fail_bind]
  refine .bind (locates_rejectModifiers hm) fun _ _ _ _ => ?_
  refine .ofExcept_bind (fun _ h => absurd h Token.not_error_of_first) fun keyword h => ?_
  cases h
  refine .ite (fun _ => locates_fail hfirst) fun _ => ?_
  refine .ofExcept_bind (fun _ h => Token.located_of_tokenAt hs hn h) fun next hnext => ?_
  refine .ite (fun _ => .pure _) fun _ => .ite (fun _ => ?_) fun _ =>
    locates_fail (hs (Token.mem_of_tokenAt hnext))
  cases rest with
  | nil => cases hnext
  | cons next rest =>
    have htail : next :: rest ⊆ source := fun token ht => hs (List.mem_cons_of_mem _ ht)
    exact .bind (locates_ifStatement htail (List.nil_subset _)) fun _ _ _ _ => .pure _

/-- Whatever is wrong with the head of a block stands where its tokens or its form allow. -/
theorem locates_owner (hs : tokens ⊆ source) (hstop : Token.Stopped tokens) (chain : Chain) :
    Locates source (owner chain tokens) := by
  unfold owner
  split
  · exact .ofExcept_bind (fun _ h => Token.located_of_tokenAt hs hstop.ne_nil h) fun last hl =>
      locates_fail (hs (Token.mem_of_tokenAt hl))
  · dsimp only
    split
    next he =>
      have hrest := List.Subset.trans (Token.afterModifiers_subset tokens) hs
      cases hr : Token.afterModifiers tokens with
      | nil => simp [hr] at he
      | cons first rest =>
        exact locates_elseOwner (hr ▸ hrest) chain
          (List.Subset.trans (Token.leadingModifiers_subset tokens) hs)
    · exact .bind (locates_statement hs hstop) fun _ _ _ _ => .pure _

end MuLang.Step
