import MuLang.Proofs.Check

/-!
# What a check marks

Typing an expression gives values to locals and takes none away. So whatever a name stands for
before, it stands for after as well, and has a value there if it had one.
-/
namespace MuLang

/-! ## Variables with more values -/

/-- The same variable, which has a value if it had one. -/
structure Variable.Marks (v later : Variable) : Prop where
  unmarked_eq : later.unmarked = v.unmarked
  initialized : v.initialized → later.initialized

namespace Variable.Marks

variable {v later last : Variable}

theorem refl (v : Variable) : v.Marks v := ⟨rfl, id⟩

theorem trans (h : v.Marks later) (hl : later.Marks last) : v.Marks last :=
  ⟨hl.unmarked_eq.trans h.unmarked_eq, hl.initialized ∘ h.initialized⟩

theorem datatype_eq (h : v.Marks later) : later.datatype = v.datatype := by
  change later.unmarked.datatype = _
  rw [h.unmarked_eq, unmarked]

end Variable.Marks

/-- A name stands for the same local in other scopes, which has a value there if it had one. -/
inductive SameLocal : Option (LocalSlot × Variable) → Option (LocalSlot × Variable) → Prop
  | none : SameLocal none none
  | some (slot : LocalSlot) {v later : Variable} : v.Marks later →
      SameLocal (some (slot, v)) (some (slot, later))

namespace SameLocal

theorem refl : ∀ found, SameLocal found found
  | .none => .none
  | .some (slot, v) => .some slot (.refl v)

theorem trans {found later last : Option (LocalSlot × Variable)} (h : SameLocal found later)
    (hl : SameLocal later last) : SameLocal found last := by
  cases h with
  | none => exact hl
  | some slot hv =>
    cases hl with
    | some _ hw => exact .some slot (hv.trans hw)

end SameLocal

namespace ScopeStack

/-- Names stand for the same locals, of which more may have a value. -/
structure Marks (scopes later : ScopeStack) : Prop where
  currentModule_eq : later.currentModule = scopes.currentModule
  findLocal? : ∀ name, SameLocal (scopes.findLocal? name) (later.findLocal? name)

variable {scopes later last : ScopeStack}

theorem Marks.refl (scopes : ScopeStack) : scopes.Marks scopes := ⟨rfl, fun _ => .refl _⟩

theorem Marks.trans (h : scopes.Marks later) (hl : later.Marks last) : scopes.Marks last :=
  ⟨hl.currentModule_eq.trans h.currentModule_eq,
    fun name => (h.findLocal? name).trans (hl.findLocal? name)⟩

/-! ## Marking a local -/

/-- Marking a local leaves the names of all locals as they are. -/
theorem find?_mark (name : String) (locals : List Variable) (index : Nat) :
    (locals.modify index ({ · with initialized := true })).findIdx? (·.name = name) =
        locals.findIdx? (·.name = name) ∧
      (locals.find? (·.name = name) = none ∧
          (locals.modify index ({ · with initialized := true })).find? (·.name = name) = none ∨
        ∃ v w, locals.find? (·.name = name) = some v ∧
          (locals.modify index ({ · with initialized := true })).find? (·.name = name) = some w ∧
          v.Marks w) := by
  induction locals generalizing index with
  | nil => cases index <;> exact ⟨rfl, .inl ⟨rfl, rfl⟩⟩
  | cons v locals ih =>
    cases index with
    | zero =>
      rw [List.modify_zero_cons]
      refine ⟨by simp [List.findIdx?_cons], ?_⟩
      by_cases hn : v.name = name
      · exact .inr ⟨v, { v with initialized := true }, by simp [hn], by simp [hn], rfl, fun _ => rfl⟩
      · cases hf : locals.find? (·.name = name) with
        | none => exact .inl ⟨by simp [hn, hf], by simp [hn, hf]⟩
        | some w => exact .inr ⟨w, w, by simp [hn, hf], by simp [hn, hf], .refl w⟩
    | succ index =>
      obtain ⟨hi, hf⟩ := ih index
      rw [List.modify_succ_cons]
      refine ⟨by simp only [List.findIdx?_cons, hi], ?_⟩
      by_cases hn : v.name = name
      · exact .inr ⟨v, v, by simp [hn], by simp [hn], .refl v⟩
      · simpa [hn] using hf

theorem findIn_mark (name : String) (nested : List Scope) (place index : Nat) :
    SameLocal (findIn name nested)
      (findIn name (nested.modify place (markInitialized · index))) := by
  induction nested generalizing place with
  | nil => cases place <;> exact .none
  | cons scope rest ih =>
    cases place with
    | zero =>
      obtain ⟨hi, ⟨hf, hm⟩ | ⟨v, w, hf, hm, hv⟩⟩ := find?_mark name scope.locals index
      · rw [List.modify_zero_cons, findIn, findIn, markInitialized]
        dsimp only
        rw [hi, hf, hm]
        cases scope.locals.findIdx? (·.name = name) <;> exact .refl _
      · rw [List.modify_zero_cons, findIn, findIn, markInitialized]
        dsimp only
        rw [hi, hf, hm]
        cases scope.locals.findIdx? (·.name = name) with
        | none => exact .refl _
        | some index => exact .some _ hv
    | succ place =>
      rw [List.modify_succ_cons, findIn, findIn, List.length_modify]
      split
      · exact .refl _
      · split
        · exact .none
        · exact ih place

theorem marks_initializeLocal (scopes : ScopeStack) (slot : LocalSlot) :
    scopes.Marks (scopes.initializeLocal slot) := by
  have hu := unmarked_initializeLocal scopes slot
  have hb := bare_eq_of_unmarked_eq hu
  refine ⟨?_, fun name => ?_⟩
  · rw [← currentModule_bare, hb, currentModule_bare]
  · unfold findLocal?
    rw [← inFunction_bare scopes, ← inFunction_bare (scopes.initializeLocal slot), hb]
    split
    · unfold initializeLocal
      split
      · exact .refl _
      · exact findIn_mark name _ _ _
    · exact .none

end ScopeStack

/-! ## Checks -/

instance : Std.Refl ScopeStack.Marks := ⟨ScopeStack.Marks.refl⟩

instance : Trans ScopeStack.Marks ScopeStack.Marks ScopeStack.Marks := ⟨ScopeStack.Marks.trans⟩

/-- An assignment gives at most a value to its variable. -/
theorem Env.marks_of_assign {env : Env} {scopes after : ScopeStack} {identifier operator : Token}
    {value : Expr} {type : Datatype}
    (h : env.assign scopes identifier operator value = .ok (type, after)) : scopes.Marks after := by
  obtain ⟨place, v, stored, ha⟩ := accepts_of_assign h
  rw [ha.after_eq]
  cases place with
  | localAt slot => exact scopes.marks_initializeLocal slot
  | globalOf owner => exact .refl scopes

theorem Env.marks_store (env : Env) (identifier operator : Token) (value : Expr) :
    Fallible.Relates ScopeStack.Marks (env.store identifier operator value) := by
  intro scopes _
  obtain ⟨error, h⟩ | ⟨type, after, h, ha⟩ := env.store_cases identifier operator value scopes
  · rw [h]
    exact .refl scopes
  · rw [h]
    exact marks_of_assign ha

namespace Term

variable (env : Env)

/-- Typing a term takes no value from a local. -/
theorem marks_check (term : Term) : Fallible.Relates ScopeStack.Marks (term.check env) :=
  relates_check env.marks_store term

/-- Typing several terms takes no value from a local. -/
theorem marks_checkAll (terms : List Term) :
    Fallible.Relates ScopeStack.Marks (checkAll env terms) :=
  relates_checkAll env.marks_store terms

end Term

theorem Env.marks_of_expression {env : Env} {tokens : List Token} {context : Token} {value : Expr}
    {scopes after : ScopeStack} (h : env.expression tokens context scopes = (.ok value, after)) :
    scopes.Marks after := by
  have hm := Term.marks_check env (Term.ofTokens tokens context) scopes trivial
  unfold expression at h
  rwa [h] at hm

/-! ## Names before and after -/

namespace Env

variable {env : Env} {scopes later : ScopeStack} {identifier : Token}

/-- A name stands for the same variable after as before, which may have a value only after. -/
theorem resolve_of_marks (h : scopes.Marks later) :
    (∃ place v w, env.resolve scopes identifier = .ok ⟨place, v⟩ ∧
      env.resolve later identifier = .ok ⟨place, w⟩ ∧ v.Marks w) ∨
    ∃ error, env.resolve scopes identifier = .error error ∧
      env.resolve later identifier = .error error := by
  have hl : SameLocal (if isDotted identifier.text then none else scopes.findLocal? identifier.text)
      (if isDotted identifier.text then none else later.findLocal? identifier.text) := by
    split
    · exact .refl _
    · exact h.findLocal? _
  unfold resolve
  rw [h.currentModule_eq]
  generalize (if isDotted identifier.text then none else scopes.findLocal? identifier.text) = before
    at hl ⊢
  generalize (if isDotted identifier.text then none else later.findLocal? identifier.text) = after
    at hl ⊢
  cases hl with
  | none =>
    cases hg : env.global scopes.currentModule identifier with
    | error error => exact .inr ⟨error, rfl, rfl⟩
    | ok resolved => exact .inl ⟨_, _, _, rfl, rfl, .refl _⟩
  | some slot hv => exact .inl ⟨_, _, _, rfl, rfl, hv⟩

/-- What a name stands for before, it stands for after. -/
theorem resolve_later (h : scopes.Marks later) {place : Place} {v : Variable}
    (hr : env.resolve scopes identifier = .ok ⟨place, v⟩) :
    ∃ w, env.resolve later identifier = .ok ⟨place, w⟩ ∧ v.Marks w := by
  obtain ⟨_, _, w, hs, hl, hm⟩ | ⟨error, hs, -⟩ := resolve_of_marks h
  · cases hr.symm.trans hs
    exact ⟨w, hl, hm⟩
  · cases hr.symm.trans hs

/-- What a name stands for after, it stood for before. -/
theorem resolve_earlier (h : scopes.Marks later) {place : Place} {w : Variable}
    (hr : env.resolve later identifier = .ok ⟨place, w⟩) :
    ∃ v, env.resolve scopes identifier = .ok ⟨place, v⟩ ∧ v.Marks w := by
  obtain ⟨_, v, _, hs, hl, hm⟩ | ⟨error, -, hl⟩ := resolve_of_marks h
  · cases hr.symm.trans hl
    exact ⟨v, hs, hm⟩
  · cases hr.symm.trans hl

end Env

end MuLang
