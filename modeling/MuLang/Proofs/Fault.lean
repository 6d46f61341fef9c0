import MuLang.Proofs.Formed
import MuLang.Proofs.Raises

/-!
# Where the faults of an expression stand

An expression is rejected at one of its tokens. Either the tokens stop making sense there, or the
operator there does not apply to its operands, or an operand that starts there is at fault. Hence an
operator that stands between two operands is blamed for nothing but its operands.
-/
namespace MuLang

/-! ## Operands -/

namespace Kind

/-- Whether an operand may start with a kind of token. Parentheses only group. -/
def startsOperand : Kind → Bool
  | .literal _ | .identifier | .typeName _ => true
  | kind => kind.unary?.isSome

theorem startsOperand_of_typeName {kind : Kind} {name : TypeName} (h : kind.typeName? = some name) :
    kind.startsOperand := by
  cases kind <;> first | rfl | cases h

theorem startsOperand_of_unary {kind : Kind} {op : UnaryOp} (h : kind.unary? = some op) :
    kind.startsOperand := by
  unfold startsOperand
  split
  · rfl
  · rfl
  · rfl
  · rw [h]
    rfl

end Kind

namespace Token

/-- Whether an operand may start with a token. -/
def StartsOperand (token : Token) : Prop := token.kind.startsOperand

theorem StartsOperand.of_kind {token : Token} {kind : Kind} (h : token.kind = kind)
    (hs : kind.startsOperand) : token.StartsOperand := by
  rw [StartsOperand, h, hs]

end Token

/-! ## Blame -/

namespace Expr

/-- An expression stands where one of its words stands. -/
theorem exists_word_of_span : ∀ value : Expr, ∃ word ∈ value.words, value.span = word.span
  | .literal _ value => ⟨value, List.mem_singleton_self _, rfl⟩
  | .read _ identifier => ⟨identifier, List.mem_singleton_self _, rfl⟩
  | .binary _ left _ _ =>
    let ⟨word, hw, hs⟩ := left.exists_word_of_span
    ⟨word, List.mem_append_left _ hw, hs⟩
  | .unary _ operator _ => ⟨operator, List.mem_cons_self, rfl⟩
  | .cast _ target _ => ⟨target, List.mem_cons_self, rfl⟩
  | .assign _ assignee _ _ => ⟨assignee, List.mem_cons_self, rfl⟩
  | .call _ callee _ => ⟨callee, List.mem_cons_self, rfl⟩

end Expr

namespace Error

/-- What is wrong with a typed expression is wrong at one of its words: an operator does not apply
to its operands, or something else is the matter with the operand that starts there. -/
inductive Concerns (word : Token) : Error → Prop
  | operator (operands : String) :
      Concerns word (.atToken (.operatorMismatch word.text operands) word)
  | operand {error : Error} : word.StartsOperand → error.position = word.span.start →
      Concerns word error

/-- An error that a term shows where its tokens stop making sense, or that concerns one of its
words. -/
def FoundIn (trace : List (Except Error Token)) (error : Error) : Prop :=
  .error error ∈ trace ∨ ∃ word, .ok word ∈ trace ∧ error.Concerns word

theorem FoundIn.mono {trace : List (Except Error Token)} {error : Error}
    (h : error.FoundIn trace) (more : List (Except Error Token)) (hs : trace ⊆ more) :
    error.FoundIn more := by
  obtain h | ⟨word, hw, hc⟩ := h
  · exact .inl (hs h)
  · exact .inr ⟨word, hs hw, hc⟩

end Error

namespace Term

variable {env : Env}

/-- A value starts at a word that may start an operand. -/
theorem exists_start_of_check : ∀ (term : Term) {scopes after : ScopeStack} {value : Expr},
    term.Formed → term.check env scopes = (.ok value, after) →
    ∃ word, .ok word ∈ term.trace ∧ word.StartsOperand ∧ value.span = word.span
  | .literal kind token, _, _, _, hf, h => by
    obtain ⟨⟨-, rfl⟩, -⟩ := check_literal_eq_ok.1 h
    exact ⟨token, by simp [trace], .of_kind hf rfl, rfl⟩
  | .read identifier, _, _, _, hf, h => by
    obtain ⟨hr, -⟩ := check_read_eq_ok.1 h
    obtain ⟨place, v, -, -, rfl⟩ := Env.read_eq_ok.1 hr
    exact ⟨identifier, by simp [trace], .of_kind hf rfl, rfl⟩
  | .binary left op operator right, _, _, _, hf, h => by
    obtain ⟨l, between, r, type, hl, -, -, rfl⟩ := check_binary_eq_ok.1 h
    obtain ⟨word, hw, hk, hs⟩ := exists_start_of_check left hf.2.1 hl
    exact ⟨word, by simp [trace, hw], hk, hs⟩
  | .unary op operator right, _, _, _, hf, h => by
    obtain ⟨r, type, -, -, rfl⟩ := check_unary_eq_ok.1 h
    exact ⟨operator, by simp [trace], Kind.startsOperand_of_unary hf.1, rfl⟩
  | .cast type target inner, _, _, _, hf, h => by
    obtain ⟨v, -, -, -, rfl⟩ := check_cast_eq_ok.1 h
    exact ⟨target, by simp [trace], Kind.startsOperand_of_typeName hf.1, rfl⟩
  | .assign assignee operator inner, _, _, _, hf, h => by
    obtain ⟨v, between, type, -, -, rfl⟩ := check_assign_eq_ok.1 h
    exact ⟨assignee, by simp [trace], .of_kind hf.1 rfl, rfl⟩
  | .call callee arguments, _, _, _, hf, h => by
    obtain ⟨values, type, -, -, rfl⟩ := check_call_eq_ok.1 h
    exact ⟨callee, by simp [trace], .of_kind hf.1 rfl, rfl⟩
  | .broken parts error, _, _, _, _, h => absurd h check_broken_ne_ok

mutual

/-- A term is rejected with one of its faults, or with an error that concerns one of its words. -/
theorem raises_foundIn (env : Env) : ∀ term : Term, term.Formed →
    Check.Raises (Error.FoundIn term.trace) (term.check env)
  | .literal kind value, hf => by
    rw [check]
    exact .ofExcept fun _ h =>
      .inr ⟨value, by simp [trace], .operand (.of_kind hf rfl) (Env.plainAt_of_literal h).position_eq⟩
  | .read identifier, hf => by
    rw [check]
    exact .get_bind fun _ => .ofExcept fun _ h =>
      .inr ⟨identifier, by simp [trace], .operand (.of_kind hf rfl) (Env.plainAt_of_read h).position_eq⟩
  | .binary left op operator right, hf => by
    rw [check]
    have hl := (raises_foundIn env left hf.2.1).mono fun _ he =>
      he.mono (binary left op operator right).trace (by simp [trace])
    have hr := (raises_foundIn env right hf.2.2).mono fun _ he =>
      he.mono (binary left op operator right).trace (by simp [trace])
    refine .bind hl fun _ _ _ _ => .bind hr fun _ _ _ _ => .ofExcept fun _ h => ?_
    obtain ⟨operands, rfl⟩ := Env.eq_of_binary h
    exact .inr ⟨operator, by simp [trace], .operator operands⟩
  | .unary op operator right, hf => by
    rw [check]
    have hr := (raises_foundIn env right hf.2).mono fun _ he =>
      he.mono (unary op operator right).trace (by simp [trace])
    refine .bind hr fun _ _ _ _ => .ofExcept fun _ h => ?_
    obtain ⟨operands, rfl⟩ := Env.eq_of_unary h
    exact .inr ⟨operator, by simp [trace], .operator operands⟩
  | .cast type target value, hf => by
    rw [check]
    have hv := (raises_foundIn env value hf.2).mono fun _ he =>
      he.mono (cast type target value).trace (by simp [trace])
    refine .bind hv fun _ _ _ hc => .ofExcept fun _ h => ?_
    obtain ⟨word, hw, hk, hs⟩ := exists_start_of_check value hf.2 hc
    obtain hp | hp := Env.plainAt_of_cast h
    · exact .inr ⟨target, by simp [trace], .operand (Kind.startsOperand_of_typeName hf.1) hp.position_eq⟩
    · exact .inr ⟨word, by simp [trace, hw], .operand hk (hs ▸ hp.position_eq)⟩
  | .assign assignee operator value, hf => by
    rw [check]
    have hv := (raises_foundIn env value hf.2.2).mono fun _ he =>
      he.mono (assign assignee operator value).trace (by simp [trace])
    refine .bind hv fun _ typed _ hc => .bind (env.raises_of_assign _ _ _ fun _ _ h => ?_)
      fun _ _ _ _ => .pure _
    obtain ⟨word, hw, hk, hs⟩ := exists_start_of_check value hf.2.2 hc
    obtain hp | ⟨operands, rfl⟩ | ⟨v, stored, -, -, rfl⟩ := Env.cases_of_assign h
    · exact .inr ⟨assignee, by simp [trace], .operand (.of_kind hf.1 rfl) hp.position_eq⟩
    · exact .inr ⟨operator, by simp [trace], .operator operands⟩
    · exact .inr ⟨word, by simp [trace, hw], .operand hk (hs ▸ rfl)⟩
  | .call callee arguments, hf => by
    rw [check]
    have ha := (raises_foundInAll env arguments hf.2).mono fun _ he =>
      he.mono (call callee arguments).trace (by simp [trace])
    exact .bind ha fun _ _ _ _ => .get_bind fun _ => .ofExcept_bind
      (fun _ h =>
        .inr ⟨callee, by simp [trace], .operand (.of_kind hf.1 rfl) (Env.plainAt_of_call h).position_eq⟩)
      fun _ _ => .pure _
  | .broken parts error, hf => by
    rw [check]
    have hp := (raises_foundInAll env parts hf).mono fun _ he =>
      he.mono (broken parts error).trace (by simp [trace])
    exact .bind hp fun _ _ _ _ => .throw (.inl (by simp [trace]))

theorem raises_foundInAll (env : Env) : ∀ terms : List Term, AllFormed terms →
    Check.Raises (Error.FoundIn (traceOf terms)) (checkAll env terms)
  | [], _ => by
    rw [checkAll]
    exact .pure _
  | term :: rest, hf => by
    rw [checkAll]
    have ht := (raises_foundIn env term hf.1).mono fun _ he =>
      he.mono (traceOf (term :: rest)) (by simp [traceOf])
    have hr := (raises_foundInAll env rest hf.2).mono fun _ he =>
      he.mono (traceOf (term :: rest)) (by simp [traceOf])
    exact .bind ht fun _ _ _ _ => .bind hr fun _ _ _ _ => .pure _

end

end Term

end MuLang
