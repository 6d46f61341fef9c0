import MuLang.Proofs.Places.Shadow
import MuLang.Proofs.Turns
import MuLang.Typing

/-!
# Expressions read without places

The tokens of an expression are grouped by their kinds, and names are looked up by their texts. So
an expression that is read and typed from stripped tokens is the one that is read and typed from the
tokens themselves, stripped afterwards, and a fault in it is the same fault.
-/
namespace MuLang

/-! ## Terms -/

namespace Term

mutual

def stripped : Term → Term
  | .literal kind value => .literal kind value.stripped
  | .read identifier => .read identifier.stripped
  | .binary left op operator right => .binary left.stripped op operator.stripped right.stripped
  | .unary op operator right => .unary op operator.stripped right.stripped
  | .cast type target value => .cast type target.stripped value.stripped
  | .assign assignee operator value =>
    .assign assignee.stripped operator.stripped value.stripped
  | .call callee arguments => .call callee.stripped (strippedAll arguments)
  | .broken parts error => .broken (strippedAll parts) error.stripped

def strippedAll : List Term → List Term
  | [] => []
  | term :: rest => term.stripped :: strippedAll rest

end

theorem strippedAll_append (terms : List Term) (last : Term) :
    strippedAll (terms ++ [last]) = strippedAll terms ++ [last.stripped] := by
  induction terms with
  | nil => rfl
  | cons term rest ih => rw [List.cons_append, strippedAll, strippedAll, ih, List.cons_append]

end Term

namespace Pending

def stripped : Pending → Pending
  | .group => .group
  | .call callee arguments => .call callee.stripped (Term.strippedAll arguments)
  | .assign assignee operator => .assign assignee.stripped operator.stripped
  | .unary op operator => .unary op operator.stripped
  | .cast type target => .cast type target.stripped
  | .binary left op operator => .binary left.stripped op operator.stripped

theorem fill_stripped (waiting : Pending) (term : Term) :
    waiting.stripped.fill term.stripped = (waiting.fill term).stripped := by
  cases waiting <;> simp [stripped, fill, Term.stripped, Term.strippedAll_append]

theorem yieldsTo_stripped (power : Nat) (waiting : Pending) :
    waiting.stripped.yieldsTo power = waiting.yieldsTo power := by
  cases waiting <;> rfl

theorem fillAll_stripped (stack : List Pending) (term : Term) :
    fillAll (stack.map stripped) term.stripped = (fillAll stack term).stripped := by
  induction stack generalizing term with
  | nil => rfl
  | cons waiting rest ih =>
    rw [List.map_cons, fillAll, List.foldl_cons, fill_stripped]
    exact ih _

theorem settle_stripped {power : Nat} {stack waiting : List Pending} {term inner : Term}
    (h : settle power stack term = (waiting, inner)) :
    settle power (stack.map stripped) term.stripped = (waiting.map stripped, inner.stripped) := by
  obtain ⟨done, rfl, hyields, hopened, rfl⟩ := settle_eq_iff.1 h
  refine settle_eq_iff.2 ⟨done.map stripped, List.map_append, ?_, ?_, fillAll_stripped _ _⟩
  · intro first hm
    obtain ⟨other, ho, rfl⟩ := List.mem_map.1 hm
    exact (yieldsTo_stripped power other).trans (hyields other ho)
  · intro opened hm
    rw [List.head?_map] at hm
    obtain ⟨other, ho, rfl⟩ := Option.map_eq_some_iff.1 hm
    exact (yieldsTo_stripped power other).trans (hopened other ho)

end Pending

namespace Term

theorem stripped_abandon (stack : List Pending) (parts : List Term) (cause : Cause)
    (token : Token) : (abandon stack parts cause token).stripped =
      abandon (stack.map Pending.stripped) (strippedAll parts) cause token.stripped := by
  rw [abandon, ← Pending.fillAll_stripped, abandon, stripped, Error.atToken_stripped]

/-! ### The same turns -/

section Turns

variable {stop token : Token} {spelled tokens rest : List Token} {term : Term} {cause : Cause}

theorem Complete.stripped (h : Complete spelled term rest) :
    Complete (spelled.map Token.stripped) term.stripped (rest.map Token.stripped) := by
  cases h with
  | literal hk => exact .literal hk
  | read hk hr =>
    refine .read hk fun next hn => ?_
    rw [List.head?_map] at hn
    obtain ⟨other, ho, rfl⟩ := Option.map_eq_some_iff.1 hn
    exact hr other ho
  | call hk ho hc => exact .call hk ho hc

theorem Begins.stripped {opened : Pending} (h : Begins spelled opened rest) :
    Begins (spelled.map Token.stripped) opened.stripped (rest.map Token.stripped) := by
  cases h with
  | call hk ho hr =>
    refine .call hk ho fun next hn => ?_
    rw [List.head?_map] at hn
    obtain ⟨other, ho, rfl⟩ := Option.map_eq_some_iff.1 hn
    exact hr other ho
  | assign hk ha => exact .assign hk ha
  | cast ho ht hc => exact .cast ho ht hc
  | group ho hn =>
    refine .group ho fun target closing more he hc => ?_
    obtain ⟨other, others, rfl, rfl, ho⟩ := List.map_eq_cons_iff.1 he
    obtain ⟨last, left, rfl, rfl, -⟩ := List.map_eq_cons_iff.1 ho
    exact hn other last left rfl hc
  | unary hu => exact .unary hu

theorem Missing.stripped (h : Missing stop tokens cause token) :
    Missing stop.stripped (tokens.map Token.stripped) cause token.stripped := by
  cases h with
  | ended => exact .ended
  | unexpected hl hi ho hu => exact .unexpected hl hi ho hu

theorem Stuck.stripped {waiting : List Pending} (h : Stuck stop waiting tokens cause token) :
    Stuck stop.stripped (waiting.map Pending.stripped) (tokens.map Token.stripped) cause
      token.stripped := by
  cases h with
  | unclosed => exact .unclosed
  | extra hb => exact .extra hb
  | @misplaced opened _ _ _ hb hc hn =>
    refine .misplaced hb hc fun callee arguments he => ?_
    cases opened with
    | call callee arguments => exact hn callee arguments rfl
    | _ => cases he

end Turns

/-- The reader takes the same turns, which the kinds of the tokens decide. -/
theorem operand_stripped (stop : Token) :
    (∀ (stack : List Pending) (tokens : List Token),
      operand stop.stripped (stack.map Pending.stripped) (tokens.map Token.stripped) =
        (operand stop stack tokens).stripped) ∧
    ∀ (stack : List Pending) (term : Term) (tokens : List Token),
      afterOperand stop.stripped (stack.map Pending.stripped) term.stripped
          (tokens.map Token.stripped) =
        (afterOperand stop stack term tokens).stripped := by
  apply reading_induct stop
  case complete =>
    intro stack spelled term rest hc ih
    rw [operand_complete hc, ← ih, List.map_append, operand_complete hc.stripped]
  case begins =>
    intro stack spelled opened rest hb ih
    rw [operand_begins hb, ← ih, List.map_append, operand_begins hb.stripped, List.map_cons]
  case missing =>
    intro stack tokens cause token hm
    rw [operand_missing hm, operand_missing hm.stripped, stripped_abandon, strippedAll]
  case ends =>
    intro stack term whole hw
    rw [afterOperand_ends hw]
    exact afterOperand_ends (Pending.settle_stripped hw)
  case binary =>
    intro stack term token rest op waiting left hk hw ih
    rw [afterOperand_binary hk hw, ← ih]
    exact afterOperand_binary hk (Pending.settle_stripped hw)
  case closes =>
    intro stack term token rest opened waiting inner hk hw ih
    rw [afterOperand_closes hk hw, ← ih, ← Pending.fill_stripped]
    exact afterOperand_closes hk (Pending.settle_stripped hw)
  case comma =>
    intro stack term token rest callee arguments waiting last hk hw ih
    rw [afterOperand_comma hk hw, ← ih, List.map_cons, List.map_cons, Pending.stripped,
      strippedAll_append]
    exact afterOperand_comma hk (Pending.settle_stripped hw)
  case stuck =>
    intro stack term tokens waiting part cause token hw hf
    rw [afterOperand_stuck hw hf, afterOperand_stuck (Pending.settle_stripped hw) hf.stripped,
      stripped_abandon, strippedAll, strippedAll]

theorem ofTokens_stripped (tokens : List Token) (context : Token) :
    ofTokens (tokens.map Token.stripped) context.stripped = (ofTokens tokens context).stripped := by
  unfold ofTokens
  rw [List.getLast?_map]
  cases tokens.getLast? with
  | none => rfl
  | some last => exact (operand_stripped (endOfExpression last)).1 [] tokens

end Term

/-! ## Names and types -/

namespace Env

variable (env : Env) (scopes : ScopeStack) (source : ModulePath) (identifier operator : Token)

theorem checkAccess_stripped (owner : ModulePath) (kind : String) (modifiers : List Modifier) :
    env.checkAccess source owner kind modifiers identifier.stripped =
      Except.stripped id (env.checkAccess source owner kind modifiers identifier) :=
  Except.stripped_ite rfl rfl

theorem global_stripped : env.global source identifier.stripped =
    Except.stripped id (env.global source identifier) := by
  unfold global
  dsimp only [Token.text_stripped]
  split
  · rfl
  · split
    · rfl
    · rw [checkAccess_stripped]
      exact Except.stripped_map fun _ => rfl

theorem resolve_stripped : env.resolve scopes identifier.stripped =
    Except.stripped id (env.resolve scopes identifier) := by
  unfold resolve
  rw [global_stripped, Token.text_stripped]
  by_cases hd : isDotted identifier.text
  · rw [if_pos hd]
  · rw [if_neg hd]
    split <;> rfl

theorem functionModule_stripped : env.functionModule source identifier.stripped =
    Except.stripped id (env.functionModule source identifier) := by
  unfold functionModule
  dsimp only [Token.text_stripped]
  split
  · rfl
  · split <;> rfl

theorem call_stripped (arguments : List Datatype) :
    env.call source identifier.stripped arguments =
      Except.stripped id (env.call source identifier arguments) := by
  unfold call
  rw [functionModule_stripped]
  refine Except.stripped_bind fun found => ?_
  obtain _ | module := found
  · rfl
  · dsimp only [Token.text_stripped, id]
    split
    · rfl
    · split
      · rfl
      · rw [checkAccess_stripped]
        exact Except.stripped_bind fun _ => rfl

theorem assigned_stripped (v : Variable) (value : Expr) :
    assigned v operator.stripped value.stripped =
      Except.stripped id (assigned v operator value) := by
  unfold assigned
  rw [Expr.type_stripped]
  dsimp only [Token.kind_stripped]
  split
  · rfl
  · split <;> rfl

theorem assign_stripped (value : Expr) :
    env.assign scopes identifier.stripped operator.stripped value.stripped =
      Except.stripped id (env.assign scopes identifier operator value) := by
  unfold assign
  rw [resolve_stripped]
  refine Except.stripped_bind fun ⟨place, v⟩ => ?_
  refine Except.stripped_ite rfl (Except.stripped_ite rfl (Except.stripped_ite rfl ?_))
  rw [assigned_stripped]
  refine Except.stripped_bind fun type => Except.stripped_ite ?_ ?_
  · rw [Expr.span_stripped]
    rfl
  · cases place <;> rfl

theorem literal_stripped (kind : Literal) (value : Token) :
    literal kind value.stripped = Except.stripped Expr.stripped (literal kind value) :=
  Except.stripped_ite rfl rfl

theorem read_stripped : env.read scopes identifier.stripped =
    Except.stripped Expr.stripped (env.read scopes identifier) := by
  unfold read
  rw [resolve_stripped]
  rcases env.resolve scopes identifier with error | ⟨slot | owner, v⟩
  · rfl
  · exact Except.stripped_ite rfl rfl
  · rfl

theorem binary_stripped (left right : Expr) (op : BinaryOp) :
    binary left.stripped op operator.stripped right.stripped =
      Except.stripped Expr.stripped (binary left op operator right) := by
  unfold binary
  rw [Expr.type_stripped, Expr.type_stripped]
  split <;> rfl

theorem unary_stripped (op : UnaryOp) (right : Expr) :
    unary op operator.stripped right.stripped =
      Except.stripped Expr.stripped (unary op operator right) := by
  unfold unary
  rw [Expr.type_stripped]
  split <;> rfl

theorem cast_stripped (name : TypeName) (target : Token) (value : Expr) :
    cast name target.stripped value.stripped =
      Except.stripped Expr.stripped (cast name target value) := by
  unfold cast
  rw [Expr.type_stripped, Expr.span_stripped]
  exact Except.stripped_ite rfl (Except.stripped_ite rfl rfl)

open Fallible (Shadows)

theorem shadows_store (value : Expr) : Shadows id id (env.store identifier operator value)
    (env.store identifier.stripped operator.stripped value.stripped) := by
  exact .get_bind fun scopes => .bind (.ofExcept (env.assign_stripped scopes _ _ _))
    fun ⟨_, _⟩ _ => rfl

end Env

namespace Term

open Fallible (Shadows)

mutual

/-- The check of a term looks at no place. -/
theorem shadows_check (env : Env) :
    ∀ term : Term, Shadows id Expr.stripped (term.check env) (term.stripped.check env)
  | .literal kind value => .ofExcept (Env.literal_stripped kind value)
  | .read identifier => .get_bind fun scopes => .ofExcept (env.read_stripped scopes identifier)
  | .binary left op operator right =>
    .bind (shadows_check env left) fun _ => .bind (shadows_check env right) fun _ =>
      .ofExcept (Env.binary_stripped operator _ _ op)
  | .unary op operator right =>
    .bind (shadows_check env right) fun _ => .ofExcept (Env.unary_stripped operator op _)
  | .cast type target value =>
    .bind (shadows_check env value) fun _ => .ofExcept (Env.cast_stripped type target _)
  | .assign assignee operator value =>
    .bind (shadows_check env value) fun _ =>
      .bind (env.shadows_store assignee operator _) fun _ => .pure _
  | .call callee arguments =>
    .bind (shadows_checkAll env arguments) fun values => .get_bind fun scopes => by
      rw [Expr.types_strippedAll]
      exact .bind (.ofExcept (env.call_stripped _ _ _)) fun _ => .pure _
  | .broken parts error => .bind (shadows_checkAll env parts) fun _ => .throw error

theorem shadows_checkAll (env : Env) :
    ∀ terms : List Term, Shadows id Expr.strippedAll (checkAll env terms)
      (checkAll env (strippedAll terms))
  | [] => .pure []
  | term :: rest =>
    .bind (shadows_check env term) fun _ => .bind (shadows_checkAll env rest) fun _ => .pure _

end

end Term

theorem Env.shadows_expression (env : Env) (tokens : List Token) (context : Token) :
    Fallible.Shadows id Expr.stripped (env.expression tokens context)
      (env.expression (tokens.map Token.stripped) context.stripped) := by
  rw [expression, expression, Term.ofTokens_stripped]
  exact Term.shadows_check env _

end MuLang
