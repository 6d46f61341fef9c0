import MuLang.Proofs.Modest

/-!
# Wider policies

A policy that is wider than another one admits whatever the other one admits. Names that are looked
up with the same result in two tables, under the wider policy in the second, stand there for what
they stand for in the first, and an expression that is accepted gets the same type.
-/
namespace MuLang

/-! ## Boundaries and policies -/

/-- How far a boundary reaches. -/
def Boundary.reach : Boundary → Nat
  | .sameModule => 0
  | .subtree => 1
  | .siblings => 2

instance : LE Boundary := ⟨fun narrow wide => narrow.reach ≤ wide.reach⟩

instance (narrow wide : Boundary) : Decidable (narrow ≤ wide) :=
  inferInstanceAs (Decidable (narrow.reach ≤ wide.reach))

/-- A policy that differs from another one at most by wider scopes and by a default visibility that
has become public. -/
structure AccessPolicy.Relaxes (wide narrow : AccessPolicy) : Prop where
  defaultVisibility : wide.defaultVisibility = narrow.defaultVisibility ∨
    wide.defaultVisibility = .pub
  privateScope : narrow.privateScope ≤ wide.privateScope
  protectedScope : narrow.protectedScope ≤ wide.protectedScope

/-- Settings that differ from others at most by a wider policy. -/
structure Settings.Relaxes (wide narrow : Settings) : Prop where
  access : wide.access.Relaxes narrow.access
  stdlib_eq : wide.stdlib = narrow.stdlib
  maxErrors_eq : wide.maxErrors = narrow.maxErrors

theorem ModulePath.mem_ancestors {path other : ModulePath} :
    other ∈ path.ancestors ↔ other <+: path := by
  simp only [ancestors, List.mem_map, List.mem_reverse, List.mem_range]
  constructor
  · rintro ⟨length, -, rfl⟩
    exact List.take_prefix _ _
  · intro h
    exact ⟨other.length, Nat.lt_succ_of_le h.length_le, (List.prefix_iff_eq_take.1 h).symm⟩

theorem ModulePath.isAncestorOrSelf_iff {ancestor path : ModulePath} :
    ancestor.isAncestorOrSelf path ↔ ancestor <+: path := by
  rw [isAncestorOrSelf, List.contains_iff_mem, mem_ancestors]

/-- Whether a boundary around the declarations of `owner` leaves room for `source`. -/
def Boundary.Covers (owner source : ModulePath) : Boundary → Prop
  | .sameModule => owner = source
  | .subtree => owner <+: source
  | .siblings => owner.parent <+: source

theorem Boundary.Covers.mono {owner source : ModulePath} : ∀ {narrow wide : Boundary},
    narrow ≤ wide → narrow.Covers owner source → wide.Covers owner source
  | .sameModule, .sameModule, _, h => h
  | .sameModule, .subtree, _, h => h ▸ List.prefix_refl owner
  | .sameModule, .siblings, _, h => h ▸ List.dropLast_prefix owner
  | .subtree, .sameModule, hw, _ => absurd hw (by decide)
  | .subtree, .subtree, _, h => h
  | .subtree, .siblings, _, h => (List.dropLast_prefix owner).trans h
  | .siblings, .sameModule, hw, _ => absurd hw (by decide)
  | .siblings, .subtree, hw, _ => absurd hw (by decide)
  | .siblings, .siblings, _, h => h

theorem Env.admits_iff (env : Env) (source owner : ModulePath) (modifiers : List Modifier) :
    env.admits source owner modifiers ↔
      ∀ boundary ∈ env.access.boundary? modifiers, boundary.Covers owner source := by
  rw [admits]
  cases env.access.boundary? modifiers with
  | none => simp
  | some boundary =>
    cases boundary <;>
      simp [Boundary.Covers, ModulePath.isAncestorOrSelf_iff, eq_comm (a := source)]

/-- Where a wider policy sets a boundary, the narrower one has set one that reaches no further. -/
theorem AccessPolicy.Relaxes.exists_boundary {wide narrow : AccessPolicy} (h : wide.Relaxes narrow)
    {modifiers : List Modifier} {boundary : Boundary}
    (hb : wide.boundary? modifiers = some boundary) :
    ∃ within, narrow.boundary? modifiers = some within ∧ within ≤ boundary := by
  have hv : (modifiers.findSome? Modifier.visibility?).getD wide.defaultVisibility =
      (modifiers.findSome? Modifier.visibility?).getD narrow.defaultVisibility ∨
      (modifiers.findSome? Modifier.visibility?).getD wide.defaultVisibility = .pub := by
    cases modifiers.findSome? Modifier.visibility? with
    | some visibility => exact .inl rfl
    | none => exact h.defaultVisibility
  rw [boundary?] at hb ⊢
  obtain hv | hv := hv
  · rw [hv] at hb
    generalize (modifiers.findSome? Modifier.visibility?).getD narrow.defaultVisibility =
      visibility at hb ⊢
    cases visibility with
    | pub => cases hb
    | priv => exact ⟨_, rfl, Option.some.inj hb ▸ h.privateScope⟩
    | prot => exact ⟨_, rfl, Option.some.inj hb ▸ h.protectedScope⟩
  · rw [hv] at hb
    cases hb

/-! ## Look-ups -/

/-- A module can be added to tables that hold the same but for globals, or to none of them. -/
theorem SymbolTable.exists_addModule {table other extended : SymbolTable} {parent : ModulePath}
    {name : String} (h : table.withoutGlobals = other.withoutGlobals)
    (ha : table.addModule parent name = .ok extended) :
    ∃ after, other.addModule parent name = .ok after ∧
      extended.withoutGlobals = after.withoutGlobals := by
  have hw := addModule_withoutGlobals other parent name
  rw [← h, addModule_withoutGlobals, ha] at hw
  cases hb : other.addModule parent name with
  | error conflict =>
    rw [hb] at hw
    cases hw
  | ok after =>
    rw [hb] at hw
    exact ⟨after, rfl, Except.ok.inj hw⟩

/-- Tables in which every look-up has one result. The order of the globals may differ. -/
structure SymbolTable.SameLookups (table other : SymbolTable) : Prop where
  withoutGlobals_eq : table.withoutGlobals = other.withoutGlobals
  global?_eq : ∀ p name, (table.module p).global? name = (other.module p).global? name

namespace SymbolTable.SameLookups

variable {table other : SymbolTable}

theorem contains_eq (h : table.SameLookups other) (p : ModulePath) :
    table.contains p = other.contains p := by
  rw [← contains_withoutGlobals, h.withoutGlobals_eq, contains_withoutGlobals]

theorem definitions_eq (h : table.SameLookups other) (p : ModulePath) (name : String) :
    (table.module p).definitions name = (other.module p).definitions name := by
  change (table.module p).withoutGlobals.definitions name =
    (other.module p).withoutGlobals.definitions name
  rw [← module_withoutGlobals, h.withoutGlobals_eq, module_withoutGlobals]

theorem resolveGlobal?_eq (h : table.SameLookups other) (start : ModulePath)
    (identifier : String) :
    table.resolveGlobal? start identifier = other.resolveGlobal? start identifier := by
  simp only [resolveGlobal?, h.global?_eq, resolveModule?_congr h.contains_eq]

/-- A variable can be added to both, or to none. -/
theorem addVariable (h : table.SameLookups other) {path : ModulePath} {v : Variable}
    {extended : SymbolTable} (ha : table.addVariable path v = .ok extended) :
    ∃ after, other.addVariable path v = .ok after ∧ extended.SameLookups after := by
  have hn := (of_addVariable ha).1
  rw [HasGlobal, h.global?_eq] at hn
  have hb : other.addVariable path v = .ok (other.modify path fun module =>
      { module with globals := module.globals ++ [v] }) := if_neg hn
  refine ⟨_, hb, ?_, fun p found => ?_⟩
  · rw [withoutGlobals_addVariable ha, withoutGlobals_addVariable hb, h.withoutGlobals_eq]
  · rw [global?_addVariable ha, global?_addVariable hb, h.contains_eq, h.global?_eq]

end SymbolTable.SameLookups

/-! ## Checks -/

namespace Fallible

variable {σ α β : Type}

/-- Wherever a step gets through, another one does, with the same answer and the same effect. -/
def Below (f g : Fallible σ α) : Prop := ∀ s a t, f s = (.ok a, t) → g s = (.ok a, t)

namespace Below

theorem refl (f : Fallible σ α) : Below f f := fun _ _ _ h => h

theorem ofExcept {x y : Except Error α} (h : ∀ a, x = .ok a → y = .ok a) :
    Below (MonadExcept.ofExcept x : Fallible σ α) (MonadExcept.ofExcept y) := by
  intro s a t hs
  rw [ofExcept_eq_ok] at hs ⊢
  exact ⟨h a hs.1, hs.2⟩

theorem bind {f g : Fallible σ α} {k l : α → Fallible σ β} (h : Below f g)
    (hk : ∀ a, Below (k a) (l a)) : Below (f >>= k) (g >>= l) := by
  intro s b t hs
  obtain ⟨a, between, hf, hb⟩ := bind_eq_ok.1 hs
  exact bind_eq_ok.2 ⟨a, between, h s a between hf, hk a between b t hb⟩

end Below

end Fallible

namespace Env

/-- Look-ups that have the same results, under a wider policy. -/
structure Eases (wide narrow : Env) : Prop where
  lookups : narrow.table.SameLookups wide.table
  access : wide.access.Relaxes narrow.access

variable {wide narrow : Env} {scopes after : ScopeStack} {source owner : ModulePath}
  {identifier operator callee : Token}

theorem Eases.admits (h : wide.Eases narrow) {modifiers : List Modifier}
    (ha : narrow.admits source owner modifiers) : wide.admits source owner modifiers := by
  rw [admits_iff] at ha ⊢
  intro boundary hb
  obtain ⟨within, hw, hle⟩ := h.access.exists_boundary hb
  exact .mono hle (ha within hw)

theorem Eases.checkAccess (h : wide.Eases narrow) {kind : String} {modifiers : List Modifier}
    (ha : narrow.checkAccess source owner kind modifiers identifier = .ok ()) :
    wide.checkAccess source owner kind modifiers identifier = .ok () := by
  rw [Env.checkAccess] at ha ⊢
  split at ha
  next hn => exact if_pos (h.admits hn)
  next => cases ha

theorem Eases.global (h : wide.Eases narrow) {resolved : Resolved}
    (hg : narrow.global source identifier = .ok resolved) :
    wide.global source identifier = .ok resolved := by
  simp only [Env.global, ← h.lookups.resolveGlobal?_eq,
    ← SymbolTable.resolveModule?_congr h.lookups.contains_eq] at hg ⊢
  split at hg
  · cases hg
  next hm =>
    rw [if_neg hm]
    split at hg
    · cases hg
    next owner v _ =>
      obtain ⟨_, ha, rfl⟩ := Except.map_eq_ok.1 hg
      exact Except.map_eq_ok.2 ⟨(), h.checkAccess ha, rfl⟩

theorem Eases.resolve (h : wide.Eases narrow) {resolved : Resolved}
    (hr : narrow.resolve scopes identifier = .ok resolved) :
    wide.resolve scopes identifier = .ok resolved := by
  rw [Env.resolve] at hr ⊢
  split at hr
  · exact hr
  · exact h.global hr

theorem Eases.read (h : wide.Eases narrow) {value : Expr}
    (hr : narrow.read scopes identifier = .ok value) : wide.read scopes identifier = .ok value := by
  rw [Env.read] at hr ⊢
  cases hn : narrow.resolve scopes identifier with
  | error error =>
    rw [hn] at hr
    cases hr
  | ok resolved =>
    rw [h.resolve hn]
    rwa [hn] at hr

theorem Eases.assign (h : wide.Eases narrow) {value : Expr} {type : Datatype}
    (ha : narrow.assign scopes identifier operator value = .ok (type, after)) :
    wide.assign scopes identifier operator value = .ok (type, after) := by
  obtain ⟨resolved, hr, ha⟩ := Except.bind_eq_ok.1 ha
  exact Except.bind_eq_ok.2 ⟨resolved, h.resolve hr, ha⟩

theorem Eases.functionModule_eq (h : wide.Eases narrow) (source : ModulePath) (callee : Token) :
    wide.functionModule source callee = narrow.functionModule source callee := by
  simp only [functionModule, h.lookups.definitions_eq,
    SymbolTable.resolveModule?_congr h.lookups.contains_eq]

theorem Eases.call (h : wide.Eases narrow) {arguments : List Datatype} {type : Datatype}
    (hc : narrow.call source callee arguments = .ok type) :
    wide.call source callee arguments = .ok type := by
  simp only [Env.call, h.functionModule_eq, ← h.lookups.definitions_eq] at hc ⊢
  obtain ⟨found, hm, hc⟩ := Except.bind_eq_ok.1 hc
  refine Except.bind_eq_ok.2 ⟨found, hm, ?_⟩
  obtain ⟨-, hc⟩ | ⟨hn, hc⟩ := Except.ite_eq_ok.1 hc
  · exact absurd hc (by simp)
  refine Except.ite_eq_ok.2 (.inr ⟨hn, ?_⟩)
  split at hc
  · exact absurd hc (by simp)
  · obtain ⟨_, ha, hc⟩ := Except.bind_eq_ok.1 hc
    exact Except.bind_eq_ok.2 ⟨(), h.checkAccess ha, hc⟩

open Fallible (Below)

theorem Eases.store (h : wide.Eases narrow) (identifier operator : Token) (value : Expr) :
    Below (narrow.store identifier operator value) (wide.store identifier operator value) :=
  fun _ _ _ hs => store_eq_ok.2 (h.assign (store_eq_ok.1 hs))

end Env

namespace Term

open Fallible (Below)

variable {wide narrow : Env}

mutual

/-- A term that is accepted is accepted under a wider policy, with the same type. -/
theorem below_check (h : wide.Eases narrow) : ∀ term : Term,
    Below (term.check narrow) (term.check wide)
  | .literal kind value => by
    rw [check, check]
    exact .refl _
  | .read identifier => by
    rw [check, check]
    exact .bind (.refl _) fun _ => .ofExcept fun _ => h.read
  | .binary left op operator right => by
    rw [check, check]
    exact .bind (below_check h left) fun _ => .bind (below_check h right) fun _ => .refl _
  | .unary op operator right => by
    rw [check, check]
    exact .bind (below_check h right) fun _ => .refl _
  | .cast type target value => by
    rw [check, check]
    exact .bind (below_check h value) fun _ => .refl _
  | .assign assignee operator value => by
    rw [check, check]
    exact .bind (below_check h value) fun _ => .bind (h.store _ _ _) fun _ => .refl _
  | .call callee arguments => by
    rw [check, check]
    refine .bind (below_checkAll h arguments) fun _ => .bind (.refl _) fun _ => ?_
    exact .bind (.ofExcept fun _ => h.call) fun _ => .refl _
  | .broken parts error => by
    rw [check, check]
    exact .bind (below_checkAll h parts) fun _ => .refl _

theorem below_checkAll (h : wide.Eases narrow) : ∀ terms : List Term,
    Below (checkAll narrow terms) (checkAll wide terms)
  | [] => by
    rw [checkAll, checkAll]
    exact .refl _
  | term :: rest => by
    rw [checkAll, checkAll]
    exact .bind (below_check h term) fun _ => .bind (below_checkAll h rest) fun _ => .refl _

end

end Term

theorem Env.Eases.expression {wide narrow : Env} (h : wide.Eases narrow) (tokens : List Token)
    (context : Token) :
    Fallible.Below (narrow.expression tokens context) (wide.expression tokens context) :=
  Term.below_check h _

end MuLang
