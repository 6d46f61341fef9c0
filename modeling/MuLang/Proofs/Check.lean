import MuLang.Proofs.Fallible
import MuLang.Proofs.Scope
import MuLang.Typing

/-!
# What a check accepts and what it changes

Each part of an expression is accepted under a condition on its tokens and on the types inside it.
Typing an expression may mark locals as initialized, since an assignment inside the expression gives
its variable a value. It changes nothing else, whether it succeeds or fails.
-/
namespace MuLang

/-! ## What is accepted -/

namespace Env

section Nodes

variable {env : Env} {scopes : ScopeStack} {token : Token} {left right value typed : Expr}

theorem literal_eq_ok {kind : Literal} : literal kind token = .ok typed ↔
    kind.accepts token.text ∧ .literal kind.datatype token = typed := by
  rw [literal]
  split
  next h => simp [h]
  next h => simp [h]

/-- A variable can be read if it has a value, which every global has. -/
theorem read_eq_ok : env.read scopes token = .ok typed ↔ ∃ place v,
    env.resolve scopes token = .ok ⟨place, v⟩ ∧ (∀ slot, place = .localAt slot → v.initialized) ∧
      .read v.datatype token = typed := by
  rw [read]
  split
  next hr => simp [hr]
  next slot v hr =>
    simp only [hr, Except.ok.injEq, Resolved.mk.injEq, exists_and_left, and_assoc,
      exists_eq_left', Place.localAt.injEq, forall_eq']
    split
    next hi => simp [hi]
    next hi => simp [hi]
  next owner v hr => simp [hr]

theorem binary_eq_ok {op : BinaryOp} : binary left op token right = .ok typed ↔ ∃ type,
    Datatype.binary op left.type right.type = some type ∧
      .binary type left token right = typed := by
  rw [binary]
  split
  next type ht => simp [ht]
  next ht => simp [ht]

theorem unary_eq_ok {op : UnaryOp} : unary op token right = .ok typed ↔ ∃ type,
    Datatype.unary op right.type = some type ∧ .unary type token right = typed := by
  rw [unary]
  split
  next type ht => simp [ht]
  next ht => simp [ht]

theorem cast_eq_ok {name : TypeName} : cast name token value = .ok typed ↔
    name ≠ .void ∧ value.type.castsTo (.plain (.ofTypeName name)) ∧
      .cast (.plain (.ofTypeName name)) token value = typed := by
  simp [cast]

end Nodes

/-- An assignment that is accepted: what its name stands for, what is stored, and the scopes that it
leaves. -/
structure Accepts (env : Env) (scopes : ScopeStack) (identifier operator : Token) (value : Expr)
    (type : Datatype) (after : ScopeStack) (place : Place) (v : Variable) (stored : Datatype) :
    Prop where
  resolved : env.resolve scopes identifier = .ok ⟨place, v⟩
  owned : ∀ owner, place = .globalOf owner → v.isOwned → owner = scopes.currentModule
  defined : operator.kind.compound?.isSome → v.initialized
  writable : v.initialized → ¬v.isConstant
  assigned : Env.assigned v operator value = .ok stored
  fits : stored.fits v.datatype
  type_eq : type = v.datatype
  after_eq : after = match place with
    | .localAt slot => scopes.initializeLocal slot
    | .globalOf _ => scopes

variable {env : Env} {scopes after : ScopeStack} {identifier operator : Token} {value : Expr}
  {type : Datatype}

theorem accepts_of_assign
    (h : env.assign scopes identifier operator value = .ok (type, after)) :
    ∃ place v stored, env.Accepts scopes identifier operator value type after place v stored := by
  simp only [assign, Except.bind_eq_ok, Except.ite_eq_ok, Except.throw_ne_ok, false_and, and_false,
    exists_false, false_or] at h
  obtain ⟨⟨place, v⟩, hr, ho, hd, hw, stored, ha, hf, hp⟩ := h
  refine ⟨place, v, stored, hr, ?_, by simpa using hd, by simpa [and_comm] using hw, ha,
    by simpa using hf, ?_, ?_⟩
  · rintro owner rfl h
    simpa [h] using ho
  · cases place <;> (cases hp; rfl)
  · cases place <;> (cases hp; rfl)

@[simp] theorem store_eq_ok : env.store identifier operator value scopes = (.ok type, after) ↔
    env.assign scopes identifier operator value = .ok (type, after) := by
  unfold store
  rw [Fallible.bind_of_ok (Fallible.get_apply _), Fallible.ofExcept_bind_eq_ok]
  constructor
  · rintro ⟨⟨found, scopes⟩, ha, h⟩
    obtain ⟨_, last, hs, h⟩ := Fallible.bind_eq_ok.1 h
    obtain rfl := Fallible.set_eq_ok.1 hs
    obtain ⟨rfl, rfl⟩ := Fallible.pure_eq_ok.1 h
    exact ha
  · intro ha
    exact ⟨_, ha, rfl⟩

/-- An assignment is refused and changes nothing, or it is carried out. -/
theorem store_cases (env : Env) (identifier operator : Token) (value : Expr)
    (scopes : ScopeStack) :
    (∃ error, env.store identifier operator value scopes = (.error error, scopes)) ∨
      ∃ type after, env.store identifier operator value scopes = (.ok type, after) ∧
        env.assign scopes identifier operator value = .ok (type, after) := by
  cases ha : env.assign scopes identifier operator value with
  | ok assigned => exact .inr ⟨assigned.1, assigned.2, store_eq_ok.2 ha, rfl⟩
  | error error =>
    refine .inl ⟨error, ?_⟩
    rw [store, Fallible.bind_of_ok (Fallible.get_apply _), ha]
    rfl

end Env

namespace Term

section Parts

variable {env : Env} {scopes after : ScopeStack} {typed : Expr} {values : List Expr}
  {token operator : Token} {left right inner : Term}

theorem check_literal_eq_ok {kind : Literal} :
    (literal kind token).check env scopes = (.ok typed, after) ↔
      (kind.accepts token.text ∧ .literal kind.datatype token = typed) ∧ scopes = after := by
  rw [check, Fallible.ofExcept_eq_ok, Env.literal_eq_ok]

theorem check_read_eq_ok : (read token).check env scopes = (.ok typed, after) ↔
    env.read scopes token = .ok typed ∧ scopes = after := by
  rw [check, Fallible.bind_of_ok (Fallible.get_apply _), Fallible.ofExcept_eq_ok]

/-- The operands are typed from left to right. -/
theorem check_binary_eq_ok {op : BinaryOp} :
    (binary left op operator right).check env scopes = (.ok typed, after) ↔
      ∃ l between r type, left.check env scopes = (.ok l, between) ∧
        right.check env between = (.ok r, after) ∧
        Datatype.binary op l.type r.type = some type ∧ .binary type l operator r = typed := by
  simp [check, Env.binary_eq_ok]

theorem check_unary_eq_ok {op : UnaryOp} :
    (unary op operator right).check env scopes = (.ok typed, after) ↔
      ∃ r type, right.check env scopes = (.ok r, after) ∧
        Datatype.unary op r.type = some type ∧ .unary type operator r = typed := by
  simp [check, Env.unary_eq_ok]

theorem check_cast_eq_ok {name : TypeName} :
    (cast name token inner).check env scopes = (.ok typed, after) ↔
      ∃ value, inner.check env scopes = (.ok value, after) ∧ name ≠ .void ∧
        value.type.castsTo (.plain (.ofTypeName name)) ∧
        .cast (.plain (.ofTypeName name)) token value = typed := by
  simp [check, Env.cast_eq_ok]

/-- A value is typed before it is assigned. -/
theorem check_assign_eq_ok :
    (assign token operator inner).check env scopes = (.ok typed, after) ↔
      ∃ value between type, inner.check env scopes = (.ok value, between) ∧
        env.assign between token operator value = .ok (type, after) ∧
        .assign type token operator value = typed := by
  simp [check]

theorem check_call_eq_ok {arguments : List Term} :
    (call token arguments).check env scopes = (.ok typed, after) ↔
      ∃ values type, checkAll env arguments scopes = (.ok values, after) ∧
        env.call after.currentModule token (values.map Expr.type) = .ok type ∧
        .call type token values = typed := by
  simp [check]

theorem check_broken_ne_ok {parts : List Term} {error : Error} :
    (broken parts error).check env scopes ≠ (.ok typed, after) := by
  simp [check]

theorem checkAll_nil_eq_ok :
    checkAll env [] scopes = (.ok values, after) ↔ [] = values ∧ scopes = after := by
  rw [checkAll, Fallible.pure_eq_ok]

theorem checkAll_cons_eq_ok {term : Term} {rest : List Term} :
    checkAll env (term :: rest) scopes = (.ok values, after) ↔
      ∃ first between others, term.check env scopes = (.ok first, between) ∧
        checkAll env rest between = (.ok others, after) ∧ first :: others = values := by
  simp [checkAll]

end Parts

end Term

/-! ## What is changed -/

/-- What some scopes declare is declared in the later ones. -/
abbrev ScopeStack.SameDeclarations (scopes later : ScopeStack) : Prop :=
  later.unmarked = scopes.unmarked

namespace ScopeStack.SameDeclarations

instance : Std.Refl SameDeclarations := ⟨fun _ => rfl⟩

instance : Trans SameDeclarations SameDeclarations SameDeclarations := ⟨fun h hl => hl.trans h⟩

end ScopeStack.SameDeclarations

namespace Env

variable {env : Env} {scopes after : ScopeStack} {identifier operator : Token} {value : Expr}
  {type : Datatype}

/-- An assignment declares nothing. -/
theorem unmarked_of_assign
    (h : env.assign scopes identifier operator value = .ok (type, after)) :
    after.unmarked = scopes.unmarked := by
  obtain ⟨place, v, stored, ha⟩ := accepts_of_assign h
  rw [ha.after_eq]
  cases place with
  | localAt slot => exact scopes.unmarked_initializeLocal slot
  | globalOf owner => rfl

theorem keeps_store (env : Env) (identifier operator : Token) (value : Expr) :
    Fallible.Keeps ScopeStack.unmarked (env.store identifier operator value) := by
  intro scopes
  obtain ⟨error, h⟩ | ⟨type, after, h, ha⟩ := env.store_cases identifier operator value scopes
  · rw [h]
  · rw [h]
    exact unmarked_of_assign ha

end Env

namespace Term

section Relates

open Fallible (Relates)

variable {R : ScopeStack → ScopeStack → Prop} [Std.Refl R] [Trans R R R] {env : Env}

mutual

/-- Typing a term changes the scopes as the assignments in it do. -/
theorem relates_check (hs : ∀ identifier operator value,
    Relates R (env.store identifier operator value)) : ∀ term : Term, Relates R (term.check env)
  | .literal kind value => by
    rw [check]
    exact .ofExcept _
  | .read identifier => by
    rw [check]
    exact .bind .get fun _ => .ofExcept _
  | .binary left op operator right => by
    rw [check]
    exact .bind (relates_check hs left) fun _ => .bind (relates_check hs right) fun _ => .ofExcept _
  | .unary op operator right => by
    rw [check]
    exact .bind (relates_check hs right) fun _ => .ofExcept _
  | .cast type target value => by
    rw [check]
    exact .bind (relates_check hs value) fun _ => .ofExcept _
  | .assign assignee operator value => by
    rw [check]
    exact .bind (relates_check hs value) fun _ => .bind (hs _ _ _) fun _ => .pure _
  | .call callee arguments => by
    rw [check]
    exact .bind (relates_checkAll hs arguments) fun _ =>
      .bind .get fun _ => .bind (.ofExcept _) fun _ => .pure _
  | .broken parts error => by
    rw [check]
    exact .bind (relates_checkAll hs parts) fun _ => .throw _

/-- Typing several terms changes the scopes as the assignments in them do. -/
theorem relates_checkAll (hs : ∀ identifier operator value,
    Relates R (env.store identifier operator value)) :
    ∀ terms : List Term, Relates R (checkAll env terms)
  | [] => by
    rw [checkAll]
    exact .pure _
  | term :: rest => by
    rw [checkAll]
    exact .bind (relates_check hs term) fun _ => .bind (relates_checkAll hs rest) fun _ => .pure _

end

end Relates

variable (env : Env)

/-- Typing a term changes at most which locals have a value. -/
theorem keeps_check (term : Term) : Fallible.Keeps ScopeStack.unmarked (term.check env) :=
  fun scopes => relates_check (R := ScopeStack.SameDeclarations)
    (fun _ _ _ scopes _ => env.keeps_store _ _ _ scopes) term scopes trivial

/-- Typing several terms changes at most which locals have a value. -/
theorem keeps_checkAll (terms : List Term) :
    Fallible.Keeps ScopeStack.unmarked (checkAll env terms) :=
  fun scopes => relates_checkAll (R := ScopeStack.SameDeclarations)
    (fun _ _ _ scopes _ => env.keeps_store _ _ _ scopes) terms scopes trivial

end Term

theorem Env.keeps_expression (env : Env) (tokens : List Token) (context : Token) :
    Fallible.Keeps ScopeStack.unmarked (env.expression tokens context) :=
  Term.keeps_check env _

end MuLang
