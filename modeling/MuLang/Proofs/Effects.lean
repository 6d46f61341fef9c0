import MuLang.Proofs.Marking
import MuLang.Proofs.Reference

/-!
# What expressions change

An assignment inside of an expression gives a value to its variable, and nothing else about an
analysis is different when an expression has been read, whether or not it is one: the only locals
that may differ are those that names stand for in the current function, and these differ by having
got a value.
-/
namespace MuLang

namespace ScopeStack

/-- The later scopes declare the same, and a local that differs there is one that its name stands
for and that has got a value. -/
structure Initializes (scopes later : ScopeStack) : Prop where
  unmarked_eq : later.unmarked = scopes.unmarked
  local?_eq : ∀ slot, later.local? slot = scopes.local? slot ∨
    ∃ v, scopes.local? slot = some v ∧ scopes.findLocal? v.name = some (slot, v) ∧
      v.initialized = false ∧ later.local? slot = some { v with initialized := true }

variable {scopes later last : ScopeStack} {name : String} {slot : LocalSlot} {v : Variable}

/-! ## Where locals are found -/

/-- The declarations say which local a name stands for. -/
theorem findIn_unmarked (name : String) (nested : List Scope) :
    findIn name (nested.map Scope.unmarked) =
      (findIn name nested).map (Prod.map id Variable.unmarked) := by
  induction nested with
  | nil => rfl
  | cons scope rest ih =>
    have hindex : scope.unmarked.locals.findIdx? (·.name = name) =
        scope.locals.findIdx? (·.name = name) := by
      rw [Scope.unmarked, List.findIdx?_map]
      rfl
    have hfind : scope.unmarked.locals.find? (·.name = name) =
        (scope.locals.find? (·.name = name)).map Variable.unmarked := by
      rw [Scope.unmarked, List.find?_map]
      rfl
    have hkind : scope.unmarked.kind = scope.kind := rfl
    rw [List.map_cons, findIn, findIn, hindex, hfind, hkind, ih, List.length_map]
    cases scope.locals.findIdx? (·.name = name) <;> cases scope.locals.find? (·.name = name) <;>
      by_cases hk : scope.kind = .function <;> simp [hk]

theorem findLocal?_unmarked (scopes : ScopeStack) (name : String) :
    scopes.unmarked.findLocal? name =
      (scopes.findLocal? name).map (Prod.map id Variable.unmarked) := by
  have hf : scopes.unmarked.inFunction = scopes.inFunction := by
    rw [← inFunction_bare scopes, ← bare_unmarked, inFunction_bare]
  unfold findLocal?
  rw [hf]
  split
  · exact findIn_unmarked name _
  · rfl

/-- A local that is found is one of a scope on the way. -/
theorem split_of_findIn {nested : List Scope} (h : findIn name nested = some (slot, v)) :
    ∃ inside scope outer, nested = inside ++ scope :: outer ∧ slot.scope = outer.length + 1 ∧
      scope.locals[slot.index]? = some v ∧ v.name = name := by
  induction nested with
  | nil => cases h
  | cons scope rest ih =>
    rw [findIn] at h
    split at h
    next index w hi hf =>
      cases h
      have hname := List.find?_some hf
      rw [List.find?_eq_bind_findIdx?_getElem?, hi] at hf
      exact ⟨[], scope, rest, rfl, rfl, hf, of_decide_eq_true hname⟩
    next =>
      split at h
      · cases h
      · obtain ⟨inside, found, outer, rfl, hs⟩ := ih h
        exact ⟨scope :: inside, found, outer, rfl, hs⟩

/-- The slot that a name is found in is one of the nested scopes, and it holds the local. -/
theorem local?_of_findLocal? (h : scopes.findLocal? name = some (slot, v)) :
    scopes.local? slot = some v ∧ v.name = name ∧ 0 < slot.scope ∧
      slot.scope ≤ scopes.nested.length := by
  unfold findLocal? at h
  split at h
  · obtain ⟨inside, scope, outer, hn, hs, hl, hname⟩ := split_of_findIn h
    refine ⟨?_, hname, by omega, by simp [hn]; omega⟩
    have hscope : scopes.scope? slot.scope = some scope := by simp [scope?, hn, hs]
    rw [local?, hscope, Option.bind_some, hl]
  · cases h

/-! ## Giving a value to a local -/

/-- Only the scope of a slot changes. -/
theorem scope?_initializeLocal (hz : 0 < slot.scope) (hs : slot.scope ≤ scopes.nested.length)
    (place : Nat) : (scopes.initializeLocal slot).scope? place =
      if place = slot.scope then (scopes.scope? place).map (markInitialized · slot.index)
      else scopes.scope? place := by
  rw [initializeLocal, if_neg (by omega)]
  unfold scope?
  dsimp only
  rw [List.length_modify, List.getElem?_modify]
  by_cases hp : place = slot.scope
  · subst hp
    simp only [if_neg (Nat.pos_iff_ne_zero.1 hz), if_pos hs, if_true]
    rfl
  · rw [if_neg hp]
    split
    · rfl
    · split
      · have hne : ¬scopes.nested.length - slot.scope = scopes.nested.length - place := by omega
        simp only [if_neg hne]
        exact Option.map_id'
      · rfl

/-- Only the local in a slot changes. -/
theorem local?_initializeLocal (hz : 0 < slot.scope) (hs : slot.scope ≤ scopes.nested.length)
    (other : LocalSlot) : (scopes.initializeLocal slot).local? other =
      if other = slot then (scopes.local? slot).map ({ · with initialized := true })
      else scopes.local? other := by
  rw [local?, scope?_initializeLocal hz hs]
  by_cases hscope : other.scope = slot.scope
  · rw [if_pos hscope, Option.bind_map]
    by_cases hindex : other.index = slot.index
    · obtain rfl : other = slot := by
        cases other
        cases slot
        exact LocalSlot.mk.injEq .. ▸ ⟨hscope, hindex⟩
      simp [local?, markInitialized, Function.comp_def, Option.map_bind]
    · have hne : other ≠ slot := fun he => hindex (he ▸ rfl)
      rw [if_neg hne]
      simp [local?, markInitialized, Function.comp_def, Ne.symm hindex]
  · have hne : other ≠ slot := fun he => hscope (he ▸ rfl)
    rw [if_neg hscope, if_neg hne, local?]

namespace Initializes

theorem refl (scopes : ScopeStack) : scopes.Initializes scopes := ⟨rfl, fun _ => .inl rfl⟩

/-- A name stands for the same local in both. -/
theorem findLocal?_eq (h : scopes.Initializes later)
    (hf : later.findLocal? name = some (slot, v)) :
    ∃ w, scopes.findLocal? name = some (slot, w) := by
  have hu := congrArg (·.findLocal? name) h.unmarked_eq
  simp only [findLocal?_unmarked, hf] at hu
  obtain ⟨⟨other, w⟩, hw, he⟩ := Option.map_eq_some_iff.1 hu.symm
  obtain rfl : other = slot := congrArg Prod.fst he
  exact ⟨w, hw⟩

theorem trans (h : scopes.Initializes later) (hl : later.Initializes last) :
    scopes.Initializes last := by
  refine ⟨hl.unmarked_eq.trans h.unmarked_eq, fun slot => ?_⟩
  obtain he | ⟨v, hv, hf, hi, hlast⟩ := hl.local?_eq slot
  · rw [he]
    exact h.local?_eq slot
  · obtain hs | ⟨w, hw, hwf, hwi, hlater⟩ := h.local?_eq slot
    · -- The local has had no value before the first change either.
      rw [hv] at hs
      obtain ⟨w, hw⟩ := h.findLocal?_eq hf
      obtain rfl : v = w := Option.some.inj (hs.trans (local?_of_findLocal? hw).1)
      exact .inr ⟨v, hs.symm, hw, hi, hlast⟩
    · -- What has a value after the first change does not get one in the second.
      rw [hv] at hlater
      cases hlater
      cases hi

/-- The local that a name stands for may get a value. -/
theorem initializeLocal (hf : scopes.findLocal? name = some (slot, v)) :
    scopes.Initializes (scopes.initializeLocal slot) := by
  obtain ⟨hl, rfl, hz, hs⟩ := local?_of_findLocal? hf
  refine ⟨scopes.unmarked_initializeLocal slot, fun other => ?_⟩
  rw [local?_initializeLocal hz hs]
  split
  next he =>
    subst he
    rw [hl]
    cases hi : v.initialized with
    | true =>
      refine .inl (congrArg some ?_)
      rw [← hi]
    | false => exact .inr ⟨v, rfl, hf, hi, rfl⟩
  next => exact .inl rfl

end Initializes

instance : Std.Refl Initializes := ⟨Initializes.refl⟩

instance : Trans Initializes Initializes Initializes := ⟨Initializes.trans⟩

end ScopeStack

/-! ## Assignments -/

namespace Env

variable {env : Env} {scopes after : ScopeStack} {identifier operator : Token} {value : Expr}
  {type : Datatype} {v : Variable} {slot : LocalSlot}

/-- The scopes after an assignment to what a name stands for: at most this local has got a value. -/
def Stored (scopes after : ScopeStack) : Resolved → Prop
  | ⟨.globalOf _, _⟩ => after = scopes
  | ⟨.localAt slot, v⟩ => after.unmarked = scopes.unmarked ∧ ∀ other, after.local? other =
      if other = slot then some { v with initialized := true } else scopes.local? other

theorem exists_stored_of_assign
    (h : env.assign scopes identifier operator value = .ok (type, after)) :
    ∃ resolved, env.resolve scopes identifier = .ok resolved ∧ Stored scopes after resolved := by
  obtain ⟨place, v, stored, ha⟩ := accepts_of_assign h
  refine ⟨⟨place, v⟩, ha.resolved, ?_⟩
  rw [ha.after_eq]
  cases place with
  | globalOf owner => rfl
  | localAt slot =>
    obtain ⟨hl, -, hz, hs⟩ := ScopeStack.local?_of_findLocal? (findLocal?_of_resolve ha.resolved)
    refine ⟨scopes.unmarked_initializeLocal slot, fun other => ?_⟩
    rw [ScopeStack.local?_initializeLocal hz hs, hl, Option.map_some]

theorem initializes_of_assign
    (h : env.assign scopes identifier operator value = .ok (type, after)) :
    scopes.Initializes after := by
  obtain ⟨place, v, stored, ha⟩ := accepts_of_assign h
  rw [ha.after_eq]
  cases place with
  | globalOf owner => exact .refl scopes
  | localAt slot => exact .initializeLocal (findLocal?_of_resolve ha.resolved)

theorem initializes_store (env : Env) (identifier operator : Token) (value : Expr) :
    Fallible.Relates ScopeStack.Initializes (env.store identifier operator value) := by
  intro scopes _
  obtain ⟨error, h⟩ | ⟨type, after, h, ha⟩ := env.store_cases identifier operator value scopes
  · rw [h]
    exact .refl scopes
  · rw [h]
    exact initializes_of_assign ha

end Env

/-! ## Expressions in a session -/

namespace Step

/-- However the reading of an expression ends, all that may be different in the session, which holds
all but the blocks that are open, is that visible locals have got a value. An assignment that is
refused changes nothing, and one that is carried out at most the local that it is to. -/
theorem expression_initializes (tokens : List Token) (context : Token) (session : Session) :
    (∃ scopes, (expression tokens context session).2 = { session with scopes } ∧
      session.scopes.Initializes scopes) ∧
    ∀ identifier operator value,
      (∃ error, check (fun env => env.store identifier operator value) session =
        (.error error, session)) ∨
      ∃ type scopes resolved, check (fun env => env.store identifier operator value) session =
          (.ok type, { session with scopes }) ∧
        session.env.resolve session.scopes identifier = .ok resolved ∧
        Env.Stored session.scopes scopes resolved := by
  refine ⟨⟨_, rfl, ?_⟩, fun identifier operator value => ?_⟩
  · exact Term.relates_check session.env.initializes_store _ session.scopes trivial
  · obtain ⟨error, h⟩ | ⟨type, scopes, h, ha⟩ :=
      session.env.store_cases identifier operator value session.scopes
    · exact .inl ⟨error, by rw [check, h]⟩
    · obtain ⟨resolved, hr, hs⟩ := Env.exists_stored_of_assign ha
      exact .inr ⟨type, scopes, resolved, by rw [check, h], hr, hs⟩

/-- A point in a function where `x` has no value. -/
def beforeValue : Session :=
  let body : Scope := ⟨.function, [], [⟨"x", .plain .int, [.mutable], false⟩], some (.plain .void)⟩
  { Session.initial {} with pass := .evaluate, scopes := ScopeStack.initial.enter body }

/-- The expression `(x = 1) + y` is refused, since there is no `y`, after `x` has got its value. -/
theorem expression_initializes_refused :
    let tokens : List Token :=
      [.synthetic .openParen "(", .synthetic .identifier "x", .synthetic (.assign .plain) "=",
        .synthetic (.literal .integer) "1", .synthetic .closeParen ")",
        .synthetic (.binary .add) "+", .synthetic .identifier "y"]
    ∃ error scopes, expression tokens default beforeValue =
        (.error error, { beforeValue with scopes }) ∧
      beforeValue.scopes.Initializes scopes ∧
      scopes.local? ⟨1, 0⟩ = some ⟨"x", .plain .int, [.mutable], true⟩ := by
  intro tokens
  obtain ⟨⟨scopes, hsession, hscopes⟩, -⟩ := expression_initializes tokens default beforeValue
  have hresult : (expression tokens default beforeValue).1 =
      .error (.atToken (.variableNotDeclared "y") (.synthetic .identifier "y")) := by
    with_unfolding_all rfl
  refine ⟨_, scopes, Prod.ext hresult hsession, hscopes, ?_⟩
  have hlocal : (expression tokens default beforeValue).2.scopes.local? ⟨1, 0⟩ =
      some ⟨"x", .plain .int, [.mutable], true⟩ := by with_unfolding_all rfl
  rwa [hsession] at hlocal

end Step

end MuLang
