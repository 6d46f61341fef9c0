import MuLang.Proofs.Visibility

/-!
# What a typed expression refers to

Every name in an expression that has been typed at a site is a local that is visible there, or leads
to a global variable whose type it has; every call leads to a function. Outside functions there are
no locals, so a check depends on nothing but the module that it stands in.
-/
namespace MuLang

/-- A name that is no visible local stands for a global variable of a type. -/
def Site.Refers (env : Env) (site : Site) (identifier : Token) (type : Datatype) : Prop :=
  identifier.text ∉ site.locals → ∃ owner v,
    env.table.resolveGlobal? site.module identifier.text = some (owner, v) ∧ type = v.datatype

/-- What an expression itself refers to, apart from the expressions inside it. -/
def Expr.Resolves (env : Env) (site : Site) : Expr → Prop
  | .read type identifier => site.Refers env identifier type
  | .assign type assignee _ _ => site.Refers env assignee type
  | .call type callee arguments =>
    env.call site.module callee (arguments.map Expr.type) = .ok type
  | _ => True

/-- Everything in some expressions is resolved at a site. -/
def Site.ResolvesAll (env : Env) (site : Site) (nodes : List Expr) : Prop :=
  ∀ node ∈ nodes, node.Resolves env site

namespace Site.ResolvesAll

variable {env : Env} {site : Site} {node : Expr} {first second : List Expr}

theorem nil : site.ResolvesAll env [] := fun _ h => absurd h List.not_mem_nil

theorem cons (hn : node.Resolves env site) (h : site.ResolvesAll env first) :
    site.ResolvesAll env (node :: first) :=
  List.forall_mem_cons.2 ⟨hn, h⟩

theorem append (h : site.ResolvesAll env first) (hs : site.ResolvesAll env second) :
    site.ResolvesAll env (first ++ second) :=
  List.forall_mem_append.2 ⟨h, hs⟩

end Site.ResolvesAll

namespace Env

variable {env : Env} {site : Site} {scopes after : ScopeStack} {identifier operator : Token}
  {value : Expr} {type : Datatype} {slot : LocalSlot} {v : Variable}

theorem resolveGlobal?_of_global {source : ModulePath} {resolved : Resolved}
    (h : env.global source identifier = .ok resolved) :
    ∃ owner v, resolved = ⟨.globalOf owner, v⟩ ∧
      env.table.resolveGlobal? source identifier.text = some (owner, v) := by
  simp only [global, Except.ite_eq_ok] at h
  obtain ⟨-, h⟩ | ⟨-, h⟩ := h
  · cases h
  · split at h
    · cases h
    next owner v hv =>
      obtain ⟨_, -, rfl⟩ := Except.map_eq_ok.1 h
      exact ⟨owner, v, rfl, hv⟩

/-- A local that a name stands for is found by the name. -/
theorem findLocal?_of_resolve (h : env.resolve scopes identifier = .ok ⟨.localAt slot, v⟩) :
    scopes.findLocal? identifier.text = some (slot, v) := by
  unfold resolve at h
  split at h
  next other w hf =>
    cases h
    split at hf
    · cases hf
    · exact hf
  next =>
    obtain ⟨owner, w, he, -⟩ := resolveGlobal?_of_global h
    cases he

/-- What a name stands for is a visible local or a global. -/
theorem refers_of_resolve {resolved : Resolved} (hm : site.Matches scopes)
    (h : env.resolve scopes identifier = .ok resolved) :
    site.Refers env identifier resolved.entry.datatype := by
  intro hl
  have hf : (if isDotted identifier.text then none else scopes.findLocal? identifier.text) =
      none := by
    split
    · rfl
    · rw [← Option.not_isSome_iff_eq_none, ScopeStack.isSome_findLocal?, hm.mem_visible]
      exact hl
  rw [resolve, hf, hm.module_eq] at h
  obtain ⟨owner, v, rfl, hv⟩ := resolveGlobal?_of_global h
  exact ⟨owner, v, hv, rfl⟩

theorem resolves_of_read (hm : site.Matches scopes)
    (h : env.read scopes identifier = .ok value) : site.ResolvesAll env value.nodes := by
  obtain ⟨place, v, hr, -, rfl⟩ := read_eq_ok.1 h
  exact .cons (refers_of_resolve hm hr) .nil

theorem refers_of_assign (hm : site.Matches scopes)
    (h : env.assign scopes identifier operator value = .ok (type, after)) :
    site.Refers env identifier type := by
  obtain ⟨place, v, stored, ha⟩ := accepts_of_assign h
  rw [ha.type_eq]
  exact refers_of_resolve hm ha.resolved

end Env

namespace Term

variable {env : Env} {site : Site}

theorem matches_of_check {term : Term} {scopes after : ScopeStack} {result : Except Error Expr}
    (hm : site.Matches scopes) (h : term.check env scopes = (result, after)) :
    site.Matches after := by
  refine hm.congr ?_
  have hk := keeps_check env term scopes
  rwa [h] at hk

mutual

/-- Every name in a term that has been typed is resolved. -/
theorem resolves_of_check : ∀ (term : Term) {scopes after : ScopeStack} {value : Expr},
    site.Matches scopes → term.check env scopes = (.ok value, after) →
    site.ResolvesAll env value.nodes
  | .literal kind token, scopes, after, value, _, h => by
    obtain ⟨⟨-, rfl⟩, -⟩ := check_literal_eq_ok.1 h
    exact .cons trivial .nil
  | .read identifier, scopes, after, value, hm, h => by
    obtain ⟨hr, -⟩ := check_read_eq_ok.1 h
    exact Env.resolves_of_read hm hr
  | .binary left op operator right, scopes, after, value, hm, h => by
    obtain ⟨l, between, r, type, hl, hr, -, rfl⟩ := check_binary_eq_ok.1 h
    exact .cons trivial (.append (resolves_of_check left hm hl)
      (resolves_of_check right (matches_of_check hm hl) hr))
  | .unary op operator right, scopes, after, value, hm, h => by
    obtain ⟨r, type, hr, -, rfl⟩ := check_unary_eq_ok.1 h
    exact .cons trivial (resolves_of_check right hm hr)
  | .cast type target inner, scopes, after, value, hm, h => by
    obtain ⟨v, hv, -, -, rfl⟩ := check_cast_eq_ok.1 h
    exact .cons trivial (resolves_of_check inner hm hv)
  | .assign assignee operator inner, scopes, after, value, hm, h => by
    obtain ⟨v, between, type, hv, ha, rfl⟩ := check_assign_eq_ok.1 h
    exact .cons (Env.refers_of_assign (matches_of_check hm hv) ha) (resolves_of_check inner hm hv)
  | .call callee arguments, scopes, after, value, hm, h => by
    obtain ⟨values, type, hv, hc, rfl⟩ := check_call_eq_ok.1 h
    have hu := keeps_checkAll env arguments scopes
    rw [hv] at hu
    rw [(hm.congr hu).module_eq] at hc
    exact .cons hc (resolves_of_checkAll arguments hm hv)
  | .broken parts error, scopes, after, value, _, h => absurd h check_broken_ne_ok

theorem resolves_of_checkAll : ∀ (terms : List Term) {scopes after : ScopeStack}
    {values : List Expr}, site.Matches scopes → checkAll env terms scopes = (.ok values, after) →
    site.ResolvesAll env (Expr.nodesOfAll values)
  | [], scopes, after, values, _, h => by
    obtain ⟨rfl, -⟩ := checkAll_nil_eq_ok.1 h
    exact .nil
  | term :: rest, scopes, after, values, hm, h => by
    obtain ⟨first, between, others, hf, ho, rfl⟩ := checkAll_cons_eq_ok.1 h
    exact .append (resolves_of_check term hm hf)
      (resolves_of_checkAll rest (matches_of_check hm hf) ho)

end

end Term

/-- Every name in an expression that has been typed is resolved, and the site stays what it was. -/
theorem Env.resolves_of_expression {env : Env} {site : Site} {tokens : List Token} {context : Token}
    {scopes after : ScopeStack} {value : Expr} (hm : site.Matches scopes)
    (h : env.expression tokens context scopes = (.ok value, after)) :
    site.ResolvesAll env value.nodes ∧ after.unmarked = scopes.unmarked := by
  refine ⟨Term.resolves_of_check _ hm h, ?_⟩
  have hk := env.keeps_expression tokens context scopes
  rwa [h] at hk

/-! ## Where there are no locals -/

namespace ScopeStack

/-- No name stands for a local. -/
def Vacant (scopes : ScopeStack) : Prop := ∀ name, scopes.findLocal? name = none

/-- Scopes without locals stay what they are. -/
def Rests (scopes later : ScopeStack) : Prop := scopes.Vacant → later = scopes

instance : Std.Refl Rests := ⟨fun _ _ => rfl⟩

instance : Trans Rests Rests Rests := ⟨fun {scopes later last} h hl hs => by
  obtain rfl : later = scopes := h hs
  exact hl hs⟩

variable {scopes : ScopeStack}

theorem vacant_of_outside (h : scopes.inFunction = false) : scopes.Vacant := fun name => by
  simp [findLocal?, h]

/-- The scope of a module has no locals of its own. -/
theorem Vacant.pushIn (h : scopes.Vacant) (module : ModulePath) :
    (scopes.pushIn .module module).Vacant := by
  intro name
  have hs := h name
  unfold findLocal? at hs ⊢
  have hf : (scopes.pushIn .module module).inFunction = scopes.inFunction := rfl
  rw [hf]
  split
  next hi =>
    rw [if_pos hi] at hs
    exact hs
  next => rfl

end ScopeStack

/-- Where there are no locals a check that succeeds changes nothing, and it succeeds alike wherever
else in the same module it is made, if there are none either. -/
structure Outside {α : Type} (f : Check α) : Prop where
  of_ok : ∀ {scopes other after : ScopeStack} {a : α}, scopes.Vacant → other.Vacant →
    other.currentModule = scopes.currentModule →
    f scopes = (.ok a, after) → after = scopes ∧ f other = (.ok a, other)

namespace Outside

variable {α β : Type} {f : Check α} {k : α → Check β}

theorem pure (a : α) : Outside (pure a : Check α) := by
  refine ⟨fun _ _ _ h => ?_⟩
  obtain ⟨rfl, rfl⟩ := Fallible.pure_eq_ok.1 h
  exact ⟨rfl, rfl⟩

theorem throw (error : Error) : Outside (throw error : Check α) := by
  refine ⟨fun _ _ _ h => ?_⟩
  exact absurd h (by simp)

theorem ofExcept (x : Except Error α) : Outside (ofExcept x : Check α) := by
  refine ⟨fun _ _ _ h => ?_⟩
  obtain ⟨rfl, rfl⟩ := Fallible.ofExcept_eq_ok.1 h
  exact ⟨rfl, Fallible.ofExcept_apply _ _⟩

theorem bind (hf : Outside f) (hk : ∀ a, Outside (k a)) : Outside (f >>= k) := by
  refine ⟨fun hs ho hm h => ?_⟩
  obtain ⟨a, between, hx, hn⟩ := Fallible.bind_eq_ok.1 h
  obtain ⟨rfl, hy⟩ := hf.of_ok hs ho hm hx
  rw [Fallible.bind_of_ok hy]
  exact (hk a).of_ok hs ho hm hn

end Outside

namespace Env

variable {env : Env} {scopes other after : ScopeStack} {identifier operator : Token} {value : Expr}
  {type : Datatype}

theorem resolve_outside (h : scopes.Vacant) :
    env.resolve scopes identifier = env.global scopes.currentModule identifier := by
  have hf : (if isDotted identifier.text then none else scopes.findLocal? identifier.text) =
      none := by
    rw [h, ite_self]
  rw [resolve, hf]

theorem outside_read (env : Env) (identifier : Token) :
    Outside (do ofExcept (env.read (← get) identifier)) := by
  refine ⟨fun hs ho hm h => ?_⟩
  obtain ⟨hr, rfl⟩ := Fallible.ofExcept_eq_ok.1 h
  refine ⟨rfl, ?_⟩
  rw [read, resolve_outside hs, ← hm, ← resolve_outside ho] at hr
  exact Fallible.ofExcept_eq_ok.2 ⟨hr, rfl⟩

theorem assign_outside (hs : scopes.Vacant) (ho : other.Vacant)
    (hm : other.currentModule = scopes.currentModule)
    (h : env.assign scopes identifier operator value = .ok (type, after)) :
    after = scopes ∧ env.assign other identifier operator value = .ok (type, other) := by
  simp only [assign, resolve_outside hs, resolve_outside ho, hm, Except.bind_eq_ok,
    Except.ite_eq_ok, Except.throw_ne_ok, false_and, and_false, exists_false, false_or] at h ⊢
  obtain ⟨⟨place, v⟩, hg, ho, hd, hw, stored, ha, hf, hp⟩ := h
  obtain ⟨owner, w, hr, -⟩ := resolveGlobal?_of_global hg
  cases hr
  cases hp
  exact ⟨rfl, _, hg, ho, hd, hw, stored, ha, hf, rfl⟩

theorem outside_store (env : Env) (identifier operator : Token) (value : Expr) :
    Outside (env.store identifier operator value) := by
  refine ⟨fun hs ho hm h => ?_⟩
  obtain ⟨hafter, ha⟩ := assign_outside hs ho hm (store_eq_ok.1 h)
  exact ⟨hafter, store_eq_ok.2 ha⟩

theorem rests_store (env : Env) (identifier operator : Token) (value : Expr) :
    Fallible.Relates ScopeStack.Rests (env.store identifier operator value) := by
  intro scopes _ hs
  obtain ⟨error, h⟩ | ⟨type, after, h, ha⟩ := env.store_cases identifier operator value scopes
  · rw [h]
  · rw [h]
    exact (assign_outside hs hs rfl ha).1

theorem outside_call (env : Env) (callee : Token) (arguments : List Expr) :
    Outside (do
      let type ← ofExcept
        (env.call (← get).currentModule callee (arguments.map Expr.type))
      return Expr.call type callee arguments) := by
  refine ⟨fun hs ho hm h => ?_⟩
  rw [Fallible.bind_of_ok (Fallible.get_apply _)] at h ⊢
  rw [hm]
  exact (Outside.bind (.ofExcept _) fun _ => .pure _).of_ok hs ho hm h

end Env

namespace Term

variable (env : Env)

mutual

theorem outside_check : ∀ term : Term, Outside (term.check env)
  | .literal kind token => by
    rw [check]
    exact .ofExcept _
  | .read identifier => by
    rw [check]
    exact Env.outside_read env identifier
  | .binary left op operator right => by
    rw [check]
    exact .bind (outside_check left) fun _ => .bind (outside_check right) fun _ => .ofExcept _
  | .unary op operator right => by
    rw [check]
    exact .bind (outside_check right) fun _ => .ofExcept _
  | .cast type target value => by
    rw [check]
    exact .bind (outside_check value) fun _ => .ofExcept _
  | .assign assignee operator value => by
    rw [check]
    exact .bind (outside_check value) fun _ => .bind (env.outside_store _ _ _) fun _ => .pure _
  | .call callee arguments => by
    rw [check]
    exact .bind (outside_checkAll arguments) fun _ => Env.outside_call env _ _
  | .broken parts error => by
    rw [check]
    exact .bind (outside_checkAll parts) fun _ => .throw _

theorem outside_checkAll : ∀ terms : List Term, Outside (checkAll env terms)
  | [] => by
    rw [checkAll]
    exact .pure _
  | term :: rest => by
    rw [checkAll]
    exact .bind (outside_check term) fun _ => .bind (outside_checkAll rest) fun _ => .pure _

end

end Term

/-- An expression that is typed where there are no locals is typed alike anywhere else in its module
where there are none, and whatever an error in it would be reported after. -/
theorem Env.expression_outside {env : Env} {tokens : List Token} {context other : Token}
    {scopes after elsewhere : ScopeStack} {value : Expr} (hs : scopes.Vacant)
    (he : elsewhere.Vacant) (hm : elsewhere.currentModule = scopes.currentModule)
    (h : env.expression tokens context scopes = (.ok value, after)) :
    after = scopes ∧ env.expression tokens other elsewhere = (.ok value, elsewhere) := by
  have ht : Term.ofTokens tokens context = Term.ofTokens tokens other := by
    unfold Term.ofTokens
    cases hl : tokens.getLast? with
    | some last => rfl
    | none =>
      rw [expression, Term.ofTokens, hl] at h
      exact absurd h Term.check_broken_ne_ok
  rw [expression, ht] at h
  exact (Term.outside_check env _).of_ok hs he hm h

/-- Where there are no locals no expression changes the scopes. -/
theorem Env.rests_expression {scopes : ScopeStack} (env : Env) (tokens : List Token)
    (context : Token) (h : scopes.Vacant) : (env.expression tokens context scopes).2 = scopes :=
  Term.relates_check env.rests_store _ scopes trivial h

end MuLang
