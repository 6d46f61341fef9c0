import MuLang.Proofs.Formed
import MuLang.Proofs.Marking
import MuLang.Proofs.Site

/-!
# Types of expressions

What a check has accepted is well typed: the type of each part follows, by the rules of the language,
from the types of the parts inside it and from what names stand for. Typing goes on from left to right
and may give values to locals on the way. That changes no type, so all parts are typed alike where the
check begins and where it ends.
-/
namespace MuLang

/-- A part of an expression whose type follows from the types of the parts inside it. -/
inductive Expr.Typed (env : Env) (scopes : ScopeStack) : Expr → Prop
  | literal {kind : Literal} {value : Token} : value.kind = .literal kind →
      kind.accepts value.text → Typed env scopes (.literal kind.datatype value)
  | read {identifier : Token} {place : Place} {v : Variable} :
      env.resolve scopes identifier = .ok ⟨place, v⟩ →
      Typed env scopes (.read v.datatype identifier)
  | binary {op : BinaryOp} {operator : Token} {left right : Expr} {type : Datatype} :
      operator.kind = .binary op → Datatype.binary op left.type right.type = some type →
      Typed env scopes (.binary type left operator right)
  | unary {op : UnaryOp} {operator : Token} {right : Expr} {type : Datatype} :
      operator.kind.unary? = some op → Datatype.unary op right.type = some type →
      Typed env scopes (.unary type operator right)
  | cast {name : TypeName} {target : Token} {value : Expr} :
      target.kind.typeName? = some name → name ≠ .void →
      value.type.castsTo (.plain (.ofTypeName name)) →
      Typed env scopes (.cast (.plain (.ofTypeName name)) target value)
  | assign {assignee operator : Token} {value : Expr} {place : Place} {v : Variable}
      {stored : Datatype} : operator.kind.isAssignment →
      env.resolve scopes assignee = .ok ⟨place, v⟩ → Env.assigned v operator value = .ok stored →
      stored.fits v.datatype → Typed env scopes (.assign v.datatype assignee operator value)
  | call {callee : Token} {arguments : List Expr} {type : Datatype} :
      env.call scopes.currentModule callee (arguments.map Expr.type) = .ok type →
      Typed env scopes (.call type callee arguments)

/-- Every part of some expressions is well typed. -/
def Env.TypesAll (env : Env) (scopes : ScopeStack) (nodes : List Expr) : Prop :=
  ∀ node ∈ nodes, node.Typed env scopes

namespace Env.TypesAll

variable {env : Env} {scopes : ScopeStack} {node : Expr} {first second : List Expr}

theorem nil : env.TypesAll scopes [] := fun _ h => absurd h List.not_mem_nil

theorem cons (hn : node.Typed env scopes) (h : env.TypesAll scopes first) :
    env.TypesAll scopes (node :: first) :=
  List.forall_mem_cons.2 ⟨hn, h⟩

theorem append (h : env.TypesAll scopes first) (hs : env.TypesAll scopes second) :
    env.TypesAll scopes (first ++ second) :=
  List.forall_mem_append.2 ⟨h, hs⟩

end Env.TypesAll

/-! ## Where locals have been given values -/

/-- Whatever a name stands for at one point, it stands for something of the same type at another. -/
structure Env.Carries (env : Env) (scopes other : ScopeStack) : Prop where
  currentModule_eq : other.currentModule = scopes.currentModule
  resolve : ∀ {identifier : Token} {place : Place} {v : Variable},
    env.resolve scopes identifier = .ok ⟨place, v⟩ →
      ∃ w, env.resolve other identifier = .ok ⟨place, w⟩ ∧ w.datatype = v.datatype

section Marking

variable {env : Env} {scopes other : ScopeStack}

theorem ScopeStack.Marks.carries (h : scopes.Marks other) (env : Env) :
    env.Carries scopes other := by
  refine ⟨h.currentModule_eq, fun hr => ?_⟩
  obtain ⟨w, hw, hm⟩ := Env.resolve_later h hr
  exact ⟨w, hw, hm.datatype_eq⟩

theorem ScopeStack.Marks.carries_back (h : scopes.Marks other) (env : Env) :
    env.Carries other scopes := by
  refine ⟨h.currentModule_eq.symm, fun hr => ?_⟩
  obtain ⟨v, hv, hm⟩ := Env.resolve_earlier h hr
  exact ⟨v, hv, hm.datatype_eq.symm⟩

/-- What an assignment stores hangs on nothing of its variable but the type. -/
theorem Env.assigned_congr {v w : Variable} {operator : Token} {value : Expr}
    (h : w.datatype = v.datatype) :
    Env.assigned w operator value = Env.assigned v operator value := by
  simp only [assigned, h]

/-- A part is well typed wherever its names stand for something of the same types. -/
theorem Expr.Typed.carry {node : Expr} (h : node.Typed env scopes)
    (hc : env.Carries scopes other) : node.Typed env other := by
  cases h with
  | literal hk ha => exact .literal hk ha
  | read hr =>
    obtain ⟨w, hw, hd⟩ := hc.resolve hr
    exact hd ▸ .read hw
  | binary hk ht => exact .binary hk ht
  | unary hk ht => exact .unary hk ht
  | cast hk hn ht => exact .cast hk hn ht
  | assign hk hr ha hf =>
    obtain ⟨w, hw, hd⟩ := hc.resolve hr
    rw [← Env.assigned_congr hd] at ha
    rw [← hd] at hf ⊢
    exact .assign hk hw ha hf
  | call ht => exact .call (hc.currentModule_eq.symm ▸ ht)

theorem Env.TypesAll.carry {nodes : List Expr} (h : env.TypesAll scopes nodes)
    (hc : env.Carries scopes other) : env.TypesAll other nodes :=
  fun node hn => (h node hn).carry hc

end Marking

/-! ## What a check accepts -/

/-- An assignment that is accepted is well typed where it is. -/
theorem Expr.typed_of_assign {env : Env} {scopes after : ScopeStack} {assignee operator : Token}
    {value : Expr} {type : Datatype} (hk : operator.kind.isAssignment)
    (h : env.assign scopes assignee operator value = .ok (type, after)) :
    (Expr.assign type assignee operator value).Typed env scopes := by
  obtain ⟨place, v, stored, ha⟩ := Env.accepts_of_assign h
  rw [ha.type_eq]
  exact .assign hk ha.resolved ha.assigned ha.fits

namespace Term

variable {env : Env}

theorem carries_of_check {term : Term} {scopes after : ScopeStack} {result : Except Error Expr}
    (h : term.check env scopes = (result, after)) : env.Carries scopes after := by
  have hm := marks_check env term scopes trivial
  rw [h] at hm
  exact hm.carries env

theorem carries_of_checkAll {terms : List Term} {scopes after : ScopeStack}
    {result : Except Error (List Expr)} (h : checkAll env terms scopes = (result, after)) :
    env.Carries scopes after := by
  have hm := marks_checkAll env terms scopes trivial
  rw [h] at hm
  exact hm.carries env

mutual

/-- What a check accepts is well typed where the check ends. -/
theorem typed_of_check : ∀ (term : Term) {scopes after : ScopeStack} {value : Expr},
    term.Formed → term.check env scopes = (.ok value, after) → env.TypesAll after value.nodes
  | .literal kind token, scopes, after, value, hf, h => by
    obtain ⟨⟨ha, rfl⟩, -⟩ := check_literal_eq_ok.1 h
    exact .cons (.literal hf ha) .nil
  | .read identifier, scopes, after, value, _, h => by
    obtain ⟨hr, rfl⟩ := check_read_eq_ok.1 h
    obtain ⟨place, v, hv, -, rfl⟩ := Env.read_eq_ok.1 hr
    exact .cons (.read hv) .nil
  | .binary left op operator right, scopes, after, value, ⟨hk, hf, hg⟩, h => by
    obtain ⟨l, between, r, type, hl, hr, ht, rfl⟩ := check_binary_eq_ok.1 h
    have hleft : env.TypesAll between l.nodes := typed_of_check left hf hl
    have hright : env.TypesAll after r.nodes := typed_of_check right hg hr
    exact .cons (.binary hk ht) ((hleft.carry (carries_of_check hr)).append hright)
  | .unary op operator right, scopes, after, value, ⟨hk, hf⟩, h => by
    obtain ⟨r, type, hr, ht, rfl⟩ := check_unary_eq_ok.1 h
    exact .cons (.unary hk ht) (typed_of_check right hf hr)
  | .cast type target inner, scopes, after, value, ⟨hk, hf⟩, h => by
    obtain ⟨v, hv, hn, ht, rfl⟩ := check_cast_eq_ok.1 h
    exact .cons (.cast hk hn ht) (typed_of_check inner hf hv)
  | .assign assignee operator inner, scopes, after, value, ⟨_, hk, hf⟩, h => by
    obtain ⟨v, between, type, hv, ha, rfl⟩ := check_assign_eq_ok.1 h
    have hinner : env.TypesAll between v.nodes := typed_of_check inner hf hv
    have hnode := Expr.typed_of_assign hk ha
    exact (Env.TypesAll.cons hnode hinner).carry ((Env.marks_of_assign ha).carries env)
  | .call callee arguments, scopes, after, value, ⟨_, hf⟩, h => by
    obtain ⟨values, type, hv, hc, rfl⟩ := check_call_eq_ok.1 h
    exact .cons (.call hc) (typed_of_checkAll arguments hf hv)
  | .broken parts error, scopes, after, value, _, h => absurd h check_broken_ne_ok

theorem typed_of_checkAll : ∀ (terms : List Term) {scopes after : ScopeStack}
    {values : List Expr}, AllFormed terms → checkAll env terms scopes = (.ok values, after) →
    env.TypesAll after (Expr.nodesOfAll values)
  | [], scopes, after, values, _, h => by
    obtain ⟨rfl, -⟩ := checkAll_nil_eq_ok.1 h
    exact .nil
  | term :: rest, scopes, after, values, ⟨hf, hg⟩, h => by
    obtain ⟨first, between, others, hx, ho, rfl⟩ := checkAll_cons_eq_ok.1 h
    have hfirst : env.TypesAll between first.nodes := typed_of_check term hf hx
    have hothers : env.TypesAll after (Expr.nodesOfAll others) := typed_of_checkAll rest hg ho
    exact (hfirst.carry (carries_of_checkAll ho)).append hothers

end

end Term

/-- An expression that has been accepted is well typed, where its check begins and where it ends. -/
theorem Env.typed_of_expression {env : Env} {tokens : List Token} {context : Token} {value : Expr}
    {scopes after : ScopeStack} (h : env.expression tokens context scopes = (.ok value, after)) :
    env.TypesAll scopes value.nodes ∧ env.TypesAll after value.nodes := by
  have ha := Term.typed_of_check _ (Term.formed_ofTokens tokens context) h
  exact ⟨Env.TypesAll.carry ha ((marks_of_expression h).carries_back env), ha⟩

end MuLang
