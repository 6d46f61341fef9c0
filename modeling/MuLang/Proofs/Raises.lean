import MuLang.Proofs.Steady
import MuLang.Proofs.Trace

/-!
# The errors of a statement

What can go wrong in a statement is of a certain sort. No statement finds a fault of the analysis
itself, or misses a brace: that a brace is too many, or one too few, is found between statements. And
where the words of a statement stand matters to its place alone, never to its values.
-/
namespace MuLang

/-! ## Sorts of errors -/

namespace Cause

/-- A closing brace is too many. -/
def isStrayBrace : Cause → Bool
  | .unexpectedTokenDetailed _ message => message = "there is no open block to close"
  | _ => false

/-- A closing brace is missing. -/
def isMissingBrace : Cause → Bool
  | .expectedToken expected _ => expected = "`\x7d`"
  | _ => false

/-- Something may not stand where it stands, or not with such modifiers, or not without a value. -/
def concernsPlacement : Cause → Bool
  | .illegalPlacement .. | .invalidModifier .. | .uninitializedConstant .. => true
  | _ => false

end Cause

namespace Error

/-- An error in the tokens of a statement: no fault of the analysis, and none of the braces. -/
structure Ordinary (error : Error) : Prop where
  external : ¬error.isInternal
  noStray : error.cause.isStrayBrace = false
  noMissing : error.cause.isMissingBrace = false

/-- An ordinary error that does not concern what may stand where. -/
structure Plain (error : Error) : Prop extends Ordinary error where
  elsewhere : error.cause.concernsPlacement = false

/-- A plain error that stands at a position. -/
structure PlainAt (position : Position) (error : Error) : Prop extends Plain error where
  position_eq : error.position = position

end Error

/-! ## Raising errors -/

namespace Fallible

variable {σ α β : Type} {reported : σ → List Error} {allowed : Error → Prop} {f : Fallible σ α}
  {k : α → Fallible σ β}

/-- All errors that a computation fails with are of a certain sort, and so are those that it adds to
the ones reported before. -/
structure Raises (reported : σ → List Error) (allowed : Error → Prop) (f : Fallible σ α) : Prop where
  failed : ∀ s error t, f s = (.error error, t) → allowed error
  added : ∀ s, ∃ more, reported (f s).2 = reported s ++ more ∧ ∀ error ∈ more, allowed error

namespace Raises

theorem of_keeps (hk : Keeps reported f) (hf : ∀ s error t, f s = (.error error, t) → allowed error) :
    Raises reported allowed f :=
  ⟨hf, fun s => ⟨[], by rw [hk s, List.append_nil], by simp⟩⟩

theorem pure (a : α) : Raises reported allowed (pure a : Fallible σ α) :=
  of_keeps (.pure a) fun s error t h => by
    rw [pure_apply] at h
    cases h

theorem throw {error : Error} (he : allowed error) :
    Raises reported allowed (throw error : Fallible σ α) :=
  of_keeps (.throw error) fun s other t h => by
    rw [throw_apply] at h
    cases h
    exact he

theorem ofExcept {x : Except Error α} (hx : ∀ error, x = .error error → allowed error) :
    Raises reported allowed (ofExcept x : Fallible σ α) :=
  of_keeps (.ofExcept x) fun s error t h => by
    rw [ofExcept_apply] at h
    exact hx error (congrArg Prod.fst h)

theorem modify {change : σ → σ} (h : ∀ s, reported (change s) = reported s) :
    Raises reported allowed (modify change : Fallible σ PUnit) :=
  of_keeps (.modify h) fun s error t h => by
    rw [modify_apply] at h
    cases h

/-- What follows a computation may count on its success. -/
theorem bind (hf : Raises reported allowed f)
    (hk : ∀ s a t, f s = (.ok a, t) → Raises reported allowed (k a)) :
    Raises reported allowed (f >>= k) := by
  refine ⟨fun s error t h => ?_, fun s => ?_⟩
  · rw [bind_apply] at h
    rcases hs : f s with ⟨other | a, between⟩
    · rw [hs] at h
      cases h
      exact hf.failed s _ _ hs
    · rw [hs] at h
      exact (hk s a between hs).failed between error t h
  · obtain ⟨more, hm, ha⟩ := hf.added s
    rw [bind_apply]
    rcases hs : f s with ⟨other | a, between⟩
    · rw [hs] at hm
      exact ⟨more, hm, ha⟩
    · rw [hs] at hm
      obtain ⟨last, hl, hb⟩ := (hk s a between hs).added between
      refine ⟨more ++ last, ?_, List.forall_mem_append.2 ⟨ha, hb⟩⟩
      rw [hl, hm, List.append_assoc]

theorem ofExcept_bind {x : Except Error α} (hx : ∀ error, x = .error error → allowed error)
    (hk : ∀ a, x = .ok a → Raises reported allowed (k a)) :
    Raises reported allowed (MonadExcept.ofExcept x >>= k) :=
  .bind (.ofExcept hx) fun _ a _ h => hk a (ofExcept_eq_ok.1 h).1

theorem get_bind {k : σ → Fallible σ α} (hk : ∀ s, Raises reported allowed (k s)) :
    Raises reported allowed (get >>= k) :=
  ⟨fun s => (hk s).failed s, fun s => (hk s).added s⟩

theorem ite {c : Prop} [Decidable c] {f g : Fallible σ α} (hf : c → Raises reported allowed f)
    (hg : ¬c → Raises reported allowed g) : Raises reported allowed (if c then f else g) := by
  split
  next h => exact hf h
  next h => exact hg h

theorem mono {wider : Error → Prop} (hf : Raises reported allowed f)
    (h : ∀ error, allowed error → wider error) : Raises reported wider f :=
  ⟨fun s error t hs => h error (hf.failed s error t hs), fun s =>
    (hf.added s).imp fun _ hm => ⟨hm.1, fun error he => h error (hm.2 error he)⟩⟩

end Raises

end Fallible

/-! ## Values -/

namespace Env

open Error (Plain PlainAt)

variable {env : Env} {scopes : ScopeStack} {source owner : ModulePath} {identifier operator : Token}
  {left right value : Expr} {error : Error}

theorem plainAt_of_literal {kind : Literal} (h : literal kind identifier = .error error) :
    error.PlainAt identifier.span.start := by
  simp [literal] at h
  obtain ⟨-, rfl⟩ := h
  exact ⟨⟨⟨Bool.false_ne_true, rfl, rfl⟩, rfl⟩, rfl⟩

theorem plainAt_of_checkAccess {kind : String} {modifiers : List Modifier}
    (h : env.checkAccess source owner kind modifiers identifier = .error error) :
    error.PlainAt identifier.span.start := by
  simp [checkAccess] at h
  obtain ⟨-, rfl⟩ := h
  exact ⟨⟨⟨Bool.false_ne_true, rfl, rfl⟩, rfl⟩, rfl⟩

theorem plainAt_of_global (h : env.global source identifier = .error error) :
    error.PlainAt identifier.span.start := by
  simp only [global, Except.ite_eq_error] at h
  obtain ⟨-, h⟩ | ⟨-, h⟩ := h
  · cases h
    exact ⟨⟨⟨Bool.false_ne_true, rfl, rfl⟩, rfl⟩, rfl⟩
  · split at h
    · cases h
      exact ⟨⟨⟨Bool.false_ne_true, rfl, rfl⟩, rfl⟩, rfl⟩
    · exact plainAt_of_checkAccess (Except.map_eq_error.1 h)

theorem plainAt_of_resolve (h : env.resolve scopes identifier = .error error) :
    error.PlainAt identifier.span.start := by
  unfold resolve at h
  split at h
  · cases h
  · exact plainAt_of_global h

theorem plainAt_of_read (h : env.read scopes identifier = .error error) :
    error.PlainAt identifier.span.start := by
  unfold read at h
  split at h
  next hr =>
    cases h
    exact plainAt_of_resolve hr
  next =>
    split at h <;> cases h
    exact ⟨⟨⟨Bool.false_ne_true, rfl, rfl⟩, rfl⟩, rfl⟩
  next => cases h

theorem plain_mismatch (operator : Token) (operands : String) :
    Plain (.atToken (.operatorMismatch operator.text operands) operator) :=
  ⟨⟨Bool.false_ne_true, rfl, rfl⟩, rfl⟩

theorem eq_of_binary {op : BinaryOp} (h : binary left op operator right = .error error) :
    ∃ operands, error = .atToken (.operatorMismatch operator.text operands) operator := by
  unfold binary at h
  split at h <;> cases h
  exact ⟨_, rfl⟩

theorem eq_of_unary {op : UnaryOp} (h : unary op operator right = .error error) :
    ∃ operands, error = .atToken (.operatorMismatch operator.text operands) operator := by
  unfold unary at h
  split at h <;> cases h
  exact ⟨_, rfl⟩

/-- A cast is rejected at its type or at its value. -/
theorem plainAt_of_cast {type : TypeName} (h : cast type operator value = .error error) :
    error.PlainAt operator.span.start ∨ error.PlainAt value.span.start := by
  simp [cast] at h
  obtain ⟨-, rfl⟩ | ⟨-, -, rfl⟩ := h
  · exact .inl ⟨⟨⟨Bool.false_ne_true, rfl, rfl⟩, rfl⟩, rfl⟩
  · exact .inr ⟨⟨⟨Bool.false_ne_true, rfl, rfl⟩, rfl⟩, rfl⟩

theorem eq_of_assigned {v : Variable} (h : assigned v operator value = .error error) :
    ∃ operands, error = .atToken (.operatorMismatch operator.text operands) operator := by
  unfold assigned at h
  split at h
  · cases h
  · split at h <;> cases h
    exact ⟨_, rfl⟩

/-- An assignment is rejected at the variable, at an operator that does not apply, or at a value
that does not fit. -/
theorem cases_of_assign (h : env.assign scopes identifier operator value = .error error) :
    error.PlainAt identifier.span.start ∨
    (∃ operands, error = .atToken (.operatorMismatch operator.text operands) operator) ∨
    ∃ v type, assigned v operator value = .ok type ∧ type.fits v.datatype = false ∧
      error = ⟨.typeMismatch v.datatype.describe type.describe, value.span.start, []⟩ := by
  simp only [assign, Except.bind_eq_error, Except.ite_eq_error, Except.throw_eq_error,
    Except.throw_ne_ok, false_and, exists_false, or_false] at h
  obtain h | ⟨⟨place, v⟩, -, ⟨-, rfl⟩ | ⟨-, ⟨-, rfl⟩ | ⟨-, ⟨-, rfl⟩ | ⟨-, h⟩⟩⟩⟩ := h
  · exact .inl (plainAt_of_resolve h)
  iterate 3 exact .inl ⟨⟨⟨Bool.false_ne_true, rfl, rfl⟩, rfl⟩, rfl⟩
  · obtain h | ⟨type, ha, ⟨hf, rfl⟩ | ⟨-, h⟩⟩ := h
    · exact .inr (.inl (eq_of_assigned h))
    · exact .inr (.inr ⟨v, type, ha, by simpa using hf, rfl⟩)
    · cases place <;> cases h

theorem plain_of_assign (h : env.assign scopes identifier operator value = .error error) :
    error.Plain := by
  obtain hp | ⟨operands, rfl⟩ | ⟨v, type, -, -, rfl⟩ := cases_of_assign h
  · exact hp.toPlain
  · exact plain_mismatch operator operands
  · exact ⟨⟨Bool.false_ne_true, rfl, rfl⟩, rfl⟩

theorem plainAt_of_functionModule (h : env.functionModule source identifier = .error error) :
    error.PlainAt identifier.span.start := by
  unfold functionModule at h
  dsimp only at h
  split at h
  · cases h
  · split at h <;> cases h
    exact ⟨⟨⟨Bool.false_ne_true, rfl, rfl⟩, rfl⟩, rfl⟩

theorem plainAt_of_call {arguments : List Datatype}
    (h : env.call source identifier arguments = .error error) :
    error.PlainAt identifier.span.start := by
  simp only [call, Except.bind_eq_error, Except.ite_eq_error, Except.throw_eq_error,
    Except.throw_ne_ok, false_and, exists_false, or_false] at h
  obtain h | ⟨found, -, ⟨-, rfl⟩ | ⟨-, h⟩⟩ := h
  · exact plainAt_of_functionModule h
  · exact ⟨⟨⟨Bool.false_ne_true, rfl, rfl⟩, rfl⟩, rfl⟩
  · split at h
    · cases h
      exact ⟨⟨⟨Bool.false_ne_true, rfl, rfl⟩, rfl⟩, rfl⟩
    · simp only [Except.bind_eq_error, Except.pure_ne_error, and_false, exists_false, or_false] at h
      exact plainAt_of_checkAccess h

end Env

/-- A check reports nothing. -/
abbrev Check.Raises {α : Type} (allowed : Error → Prop) (check : Check α) : Prop :=
  Fallible.Raises (fun _ => []) allowed check

theorem Env.raises_of_assign {allowed : Error → Prop} (env : Env) (identifier operator : Token)
    (value : Expr) (h : ∀ scopes error, env.assign scopes identifier operator value = .error error →
      allowed error) : Check.Raises allowed (env.store identifier operator value) := by
  unfold store
  refine .get_bind fun scopes => .ofExcept_bind (fun _ hx => h scopes _ hx) fun _ _ => ?_
  exact .bind (.of_keeps (fun _ => rfl) fun _ _ _ h => by rw [Fallible.set_apply] at h; cases h)
    fun _ _ _ _ => .pure _

theorem Env.raises_store (env : Env) (identifier operator : Token) (value : Expr) :
    Check.Raises Error.Plain (env.store identifier operator value) :=
  env.raises_of_assign _ _ _ fun _ _ h => plain_of_assign h

namespace Term

open Error (Plain)

mutual

/-- A term whose faults are plain is rejected with plain errors alone. -/
theorem raises_check (env : Env) : ∀ term : Term,
    (∀ error, .error error ∈ term.trace → Plain error) → Check.Raises Plain (term.check env)
  | .literal kind value, _ => by
    rw [check]
    exact .ofExcept fun _ h => (Env.plainAt_of_literal h).toPlain
  | .read identifier, _ => by
    rw [check]
    exact .get_bind fun _ => .ofExcept fun _ h => (Env.plainAt_of_read h).toPlain
  | .binary left op operator right, ht => by
    rw [check]
    have hl := raises_check env left fun error he => ht error (by simp [trace, he])
    have hr := raises_check env right fun error he => ht error (by simp [trace, he])
    refine .bind hl fun _ _ _ _ => .bind hr fun _ _ _ _ => .ofExcept fun _ h => ?_
    obtain ⟨operands, rfl⟩ := Env.eq_of_binary h
    exact Env.plain_mismatch operator operands
  | .unary op operator right, ht => by
    rw [check]
    have hr := raises_check env right fun error he => ht error (by simp [trace, he])
    refine .bind hr fun _ _ _ _ => .ofExcept fun _ h => ?_
    obtain ⟨operands, rfl⟩ := Env.eq_of_unary h
    exact Env.plain_mismatch operator operands
  | .cast type target value, ht => by
    rw [check]
    have hv := raises_check env value fun error he => ht error (by simp [trace, he])
    exact .bind hv fun _ _ _ _ => .ofExcept fun _ h =>
      (Env.plainAt_of_cast h).elim (·.toPlain) (·.toPlain)
  | .assign assignee operator value, ht => by
    rw [check]
    have hv := raises_check env value fun error he => ht error (by simp [trace, he])
    exact .bind hv fun _ _ _ _ => .bind (env.raises_store _ _ _) fun _ _ _ _ => .pure _
  | .call callee arguments, ht => by
    rw [check]
    have ha := raises_checkAll env arguments fun error he => ht error (by simp [trace, he])
    exact .bind ha fun _ _ _ _ => .get_bind fun _ =>
      .ofExcept_bind (fun _ h => (Env.plainAt_of_call h).toPlain) fun _ _ => .pure _
  | .broken parts error, ht => by
    rw [check]
    have hp := raises_checkAll env parts fun error he => ht error (by simp [trace, he])
    exact .bind hp fun _ _ _ _ => .throw (ht error (by simp [trace]))

theorem raises_checkAll (env : Env) : ∀ terms : List Term,
    (∀ error, .error error ∈ traceOf terms → Plain error) →
    Check.Raises Plain (checkAll env terms)
  | [], _ => by
    rw [checkAll]
    exact .pure _
  | term :: rest, ht => by
    rw [checkAll]
    have hf := raises_check env term fun error he => ht error (by simp [traceOf, he])
    have hr := raises_checkAll env rest fun error he => ht error (by simp [traceOf, he])
    exact .bind hf fun _ _ _ _ => .bind hr fun _ _ _ _ => .pure _

end

theorem Misplaced.plain {token : Token} {error : Error} (h : Misplaced token error) :
    error.Plain := by
  cases h <;> exact ⟨⟨Bool.false_ne_true, rfl, rfl⟩, rfl⟩

/-- The faults in the tokens of an expression are plain. -/
theorem plain_of_mem_trace {tokens : List Token} {context : Token} {error : Error}
    (h : .error error ∈ (ofTokens tokens context).trace) : error.Plain := by
  have said {words : List Token} : (.error error : Except Error Token) ∉ said words := by
    simp [said]
  obtain ⟨-, hs⟩ | ⟨last, -, hs⟩ := trace_ofTokens tokens context
  · rw [hs, List.mem_singleton] at h
    cases h
    exact ⟨⟨Bool.false_ne_true, rfl, rfl⟩, rfl⟩
  · generalize (ofTokens tokens context).trace = trace at h hs
    cases hs with
    | whole => exact absurd h said
    | broken _ _ he =>
      obtain h | h := List.mem_append.1 h
      · exact absurd h said
      · cases List.mem_singleton.1 h
        exact he.plain

end Term

theorem Env.raises_expression (env : Env) (tokens : List Token) (context : Token) :
    Check.Raises Error.Plain (env.expression tokens context) :=
  Term.raises_check env _ fun _ => Term.plain_of_mem_trace

end MuLang
