import Mathlib.Data.List.Induction
import Mathlib.Data.List.Nodup
import MuLang.Proofs.Effects

/-!
# Names of locals

However scopes are entered and left and locals are declared, no two locals of a function have the same
name from its scope inwards. This holds of every part of the scopes that may be left in the end, so it
outlasts the scopes inside: a name stands for the one local that has it.
-/
namespace MuLang

namespace ScopeStack

/-! ## Calls -/

/-- What can be done to a scope stack. -/
inductive Call where
  | push (kind : ScopeKind)
  | pushIn (kind : ScopeKind) (module : ModulePath)
  | pushFunction (returnType : Datatype)
  | pop
  | popBlock
  | truncate (size : Nat)
  | addLocal (v : Variable)
  /-- The local in a slot is given a value, or its value is forgotten. -/
  | mark (slot : LocalSlot) (initialized : Bool)

/-- The stack after a call. One that is refused leaves the stack as it is. -/
def perform (scopes : ScopeStack) : Call → ScopeStack
  | .push kind => scopes.push kind
  | .pushIn kind module => scopes.pushIn kind module
  | .pushFunction returnType => scopes.pushFunction returnType
  | .pop => scopes.pop
  | .popBlock => scopes.popBlock?.getD scopes
  | .truncate size => scopes.truncate size
  | .addLocal v =>
    match scopes.addLocal v with
    | .ok extended => extended
    | .error _ => scopes
  | .mark slot initialized => scopes.mark slot initialized

/-- With a block the scope around it may be left. -/
theorem perform_popBlock (scopes : ScopeStack) : scopes.perform .popBlock = scopes ∨
    scopes.perform .popBlock = scopes.pop ∨ scopes.perform .popBlock = scopes.pop.pop := by
  rw [perform]
  by_cases hn : scopes.nested = []
  · rcases scopes with ⟨nested, outermost⟩
    obtain rfl : nested = [] := hn
    exact .inl rfl
  · rw [popBlock?_of_ne_nil hn, Option.getD_some]
    split
    · exact .inr (.inr rfl)
    · exact .inr (.inl rfl)

/-! ## Windows -/

/-- The locals of each function have different names, from its scope inwards, also where scopes inside
are left. -/
def Apart (nested : List Scope) : Prop :=
  ∀ part, part <:+ nested → part.any (·.kind = .function) → (namesIn part).Nodup

variable {scopes extended : ScopeStack} {scope : Scope} {rest nested : List Scope} {v : Variable}
  {name : String} {slot : LocalSlot}

theorem apart_nil : Apart [] := by
  intro part hp hf
  rw [List.suffix_nil.1 hp] at hf
  cases hf

theorem apart_cons : Apart (scope :: rest) ↔
    ((scope :: rest).any (·.kind = .function) → (namesIn (scope :: rest)).Nodup) ∧ Apart rest := by
  constructor
  · intro h
    exact ⟨h _ List.suffix_rfl, fun part hp => h part (hp.trans (List.suffix_cons _ _))⟩
  · rintro ⟨hown, hrest⟩ part hp
    obtain rfl | hp := List.suffix_cons_iff.1 hp
    · exact hown
    · exact hrest part hp

theorem Apart.of_suffix (h : Apart nested) (hs : rest <:+ nested) : Apart rest :=
  fun part hp => h part (hp.trans hs)

/-- A scope is entered without locals. -/
theorem Apart.enter (h : Apart rest) (hl : scope.locals = []) : Apart (scope :: rest) := by
  refine apart_cons.2 ⟨fun hf => ?_, h⟩
  rw [namesIn, hl, List.map_nil, List.nil_append]
  split
  next => exact List.nodup_nil
  next hk =>
    rw [List.any_cons, decide_eq_false hk, Bool.false_or] at hf
    exact h rest List.suffix_rfl hf

/-- Whether locals have values does not matter. -/
theorem apart_unmarked : Apart (nested.map Scope.unmarked) ↔ Apart nested := by
  induction nested with
  | nil => rfl
  | cons scope rest ih =>
    have hnames := namesIn_unmarked (scope :: rest)
    rw [List.map_cons] at hnames ⊢
    have hkind : (scope.unmarked :: rest.map Scope.unmarked).any (·.kind = .function) =
        (scope :: rest).any (·.kind = .function) := by
      rw [← List.map_cons, List.any_map]
      rfl
    rw [apart_cons, apart_cons, ih, hnames, hkind]

/-- A local that is declared in a function has a name of its own there. -/
theorem Apart.addLocal (h : Apart scopes.nested) (ha : scopes.addLocal v = .ok extended) :
    Apart extended.nested := by
  unfold ScopeStack.addLocal at ha
  split at ha
  · cases ha
  next hfree =>
    rcases scopes with ⟨_ | ⟨scope, rest⟩, outermost⟩
    · cases ha
      exact h
    · cases ha
      obtain ⟨hown, hrest⟩ := apart_cons.1 h
      refine apart_cons.2 ⟨fun hf => ?_, hrest⟩
      have hin : (ScopeStack.mk (scope :: rest) outermost).inFunction := hf
      have hnew : v.name ∉ namesIn (scope :: rest) := by
        rw [isSome_findLocal?, visible, if_pos hin] at hfree
        exact hfree
      have hnodup := List.nodup_cons.2 ⟨hnew, hown hf⟩
      rw [namesIn] at hnodup ⊢
      rw [List.map_append, List.map_singleton, List.append_assoc, List.singleton_append,
        List.nodup_middle]
      exact hnodup

theorem Apart.perform (h : Apart scopes.nested) (call : Call) : Apart (scopes.perform call).nested := by
  cases call with
  | push | pushIn | pushFunction => exact h.enter rfl
  | pop => exact h.of_suffix (List.tail_suffix _)
  | popBlock =>
    obtain he | he | he := perform_popBlock scopes
    · rwa [he]
    · rw [he]
      exact h.of_suffix (List.tail_suffix _)
    · rw [he]
      exact h.of_suffix ((List.tail_suffix _).trans (List.tail_suffix _))
  | truncate size => exact h.of_suffix (List.drop_suffix _ _)
  | addLocal v =>
    rw [ScopeStack.perform]
    split
    next ha => exact h.addLocal ha
    next => exact h
  | mark slot initialized =>
    have hu := congrArg nested (unmarked_mark scopes slot initialized)
    rw [nested_unmarked, nested_unmarked] at hu
    rw [ScopeStack.perform, ← apart_unmarked, hu, apart_unmarked]
    exact h

/-! ## Where a name leads -/

/-- Where names differ, one of them is found in no more than one place. -/
theorem findIn_eq_some_iff (h : (namesIn nested).Nodup) :
    findIn name nested = some (slot, v) ↔
      ∃ inside scope outer, nested = inside ++ scope :: outer ∧
        (∀ inner ∈ inside, inner.kind ≠ .function) ∧ slot.scope = outer.length + 1 ∧
        scope.locals[slot.index]? = some v ∧ v.name = name := by
  induction nested with
  | nil => simp [findIn]
  | cons scope rest ih =>
    rw [namesIn] at h
    obtain ⟨hown, hrest, hapart⟩ := List.nodup_append.1 h
    constructor
    · intro hf
      obtain ⟨index, w, hw, hname, hfound⟩ | ⟨-, hfound⟩ := findIn_cons name scope rest
      · cases hfound.symm.trans hf
        exact ⟨[], scope, rest, rfl, List.forall_mem_nil _, rfl, hw, hname⟩
      · rw [hfound] at hf
        split at hf
        next => cases hf
        next hk =>
          rw [if_neg hk] at hrest
          obtain ⟨inside, found, outer, rfl, hi, hs⟩ := (ih hrest).1 hf
          exact ⟨scope :: inside, found, outer, rfl, List.forall_mem_cons.2 ⟨hk, hi⟩, hs⟩
    · rintro ⟨inside, found, outer, hsplit, hi, hs, hl, rfl⟩
      cases inside with
      | nil =>
        obtain ⟨rfl, rfl⟩ := List.cons.inj hsplit
        obtain ⟨index, w, hw, hname, hfound⟩ | ⟨hne, -⟩ := findIn_cons v.name scope rest
        · -- Two locals of one scope with the same name would be one.
          have hwn : (scope.locals.map (·.name))[index]? = some v.name := by
            rw [List.getElem?_map, hw, Option.map_some, hname]
          have hvn : (scope.locals.map (·.name))[slot.index]? = some v.name := by
            rw [List.getElem?_map, hl, Option.map_some]
          obtain rfl : index = slot.index :=
            (List.getElem?_inj (List.getElem?_eq_some_iff.1 hwn).1 hown).1 (hwn.trans hvn.symm)
          obtain rfl : w = v := Option.some.inj (hw.symm.trans hl)
          rw [hfound, ← hs]
        · exact absurd rfl (hne v (List.mem_of_getElem? hl))
      | cons first inside =>
        obtain ⟨rfl, rfl⟩ := List.cons.inj hsplit
        obtain ⟨hk, hi⟩ := List.forall_mem_cons.1 hi
        rw [if_neg hk] at hrest hapart
        have hf : findIn v.name (inside ++ found :: outer) = some (slot, v) :=
          (ih hrest).2 ⟨inside, found, outer, rfl, hi, hs, hl, rfl⟩
        have hmem : v.name ∈ namesIn (inside ++ found :: outer) := by
          rw [← isSome_findIn, hf]
          rfl
        obtain ⟨index, w, hw, hname, -⟩ | ⟨-, hfound⟩ :=
          findIn_cons v.name scope (inside ++ found :: outer)
        · have hown : v.name ∈ scope.locals.map (·.name) :=
            hname ▸ List.mem_map_of_mem (List.mem_of_getElem? hw)
          exact absurd rfl (hapart _ hown _ hmem)
        · exact hfound.trans ((if_neg hk).trans hf)

/-! ## Runs -/

/-- The scope of the whole program stays at the bottom. Only its locals change. -/
theorem outermost_perform (scopes : ScopeStack) (call : Call) :
    (scopes.perform call).outermost.bare = scopes.outermost.bare := by
  cases call with
  | push | pushIn | pushFunction | pop | truncate => rfl
  | popBlock => obtain he | he | he := perform_popBlock scopes <;> rw [he] <;> rfl
  | addLocal v =>
    rw [perform]
    split
    next ha => exact congrArg outermost (bare_of_addLocal ha)
    next => rfl
  | mark slot initialized =>
    exact congrArg outermost (bare_eq_of_unmarked_eq (unmarked_mark scopes slot initialized))

/-- What calls keep, from the stack of a program on. -/
theorem kept_of_calls (calls : List Call) :
    let scopes := calls.foldl perform .initial
    scopes.outermost.bare = initial.outermost ∧ Apart scopes.nested := by
  induction calls using List.reverseRecOn with
  | nil => exact ⟨rfl, apart_nil⟩
  | append_singleton calls call ih =>
    rw [List.foldl_append]
    exact ⟨(outermost_perform _ call).trans ih.1, ih.2.perform call⟩

/-- The names up to the innermost function. -/
theorem namesIn_append_function {inside outer : List Scope} {function : Scope}
    (hf : function.kind = .function) (hi : ∀ scope ∈ inside, scope.kind ≠ .function) :
    namesIn (inside ++ function :: outer) =
      ((inside ++ [function]).flatMap (·.locals)).map (·.name) := by
  induction inside with
  | nil => simp [namesIn, hf]
  | cons scope inside ih =>
    obtain ⟨hk, hi⟩ := List.forall_mem_cons.1 hi
    rw [List.cons_append, namesIn, if_neg hk, ih hi, List.cons_append, List.flatMap_cons,
      List.map_append]

/-- Nothing but scopes inside the innermost function is passed on the way to a scope, just if that scope
is not further out than the function. -/
theorem passed_iff {inside outer found : List Scope} {function : Scope}
    (h : inside ++ function :: outer = found ++ scope :: rest) (hf : function.kind = .function)
    (hi : ∀ inner ∈ inside, inner.kind ≠ .function) :
    (∀ inner ∈ found, inner.kind ≠ .function) ↔ outer.length ≤ rest.length := by
  obtain ⟨between, rfl, hrest⟩ | ⟨between, rfl, hrest⟩ := List.append_eq_append_iff.1 h
  · cases between with
    | nil =>
      obtain ⟨-, rfl⟩ := List.cons.inj hrest
      exact ⟨fun _ => Nat.le_refl _, fun _ => by rwa [List.append_nil]⟩
    | cons first between =>
      have hlen := congrArg List.length hrest
      simp only [List.length_append, List.length_cons] at hlen
      obtain ⟨rfl, -⟩ := List.cons.inj hrest
      exact ⟨fun hk => absurd hf (hk function (by simp)), fun _ => by omega⟩
  · have hlen := congrArg List.length hrest
    rw [List.length_cons, List.length_append, List.length_cons] at hlen
    exact ⟨fun _ => by omega, fun _ => (List.forall_mem_append.1 hi).1⟩

/-- The scope of a slot above the bottom one is one of the nested ones. -/
theorem local?_eq_some_iff (hs : 0 < slot.scope) : scopes.local? slot = some v ↔
    ∃ inside scope outer, scopes.nested = inside ++ scope :: outer ∧
      slot.scope = outer.length + 1 ∧ scope.locals[slot.index]? = some v := by
  unfold local? scope?
  rw [if_neg (Nat.ne_of_gt hs)]
  constructor
  · intro h
    obtain ⟨scope, hscope, hl⟩ := Option.bind_eq_some_iff.1 h
    split at hscope
    next hle =>
      have hlt := (List.getElem?_eq_some_iff.1 hscope).1
      have hdrop := List.drop_eq_getElem_cons hlt
      rw [(List.getElem?_eq_some_iff.1 hscope).2] at hdrop
      refine ⟨_, scope, _, (List.take_append_drop _ _).symm.trans (congrArg _ hdrop), ?_, hl⟩
      rw [List.length_drop]
      omega
    next => cases hscope
  · rintro ⟨inside, scope, outer, hn, hscope, hl⟩
    rw [hn, hscope, if_pos (by simp)]
    simpa using hl

/-- Where the names up to the innermost function differ, a name stands for just that local which has it
and is not further out than the function. -/
theorem findLocal?_eq_some_iff {inside outer : List Scope} {function : Scope}
    (hn : scopes.nested = inside ++ function :: outer) (hf : function.kind = .function)
    (hi : ∀ inner ∈ inside, inner.kind ≠ .function) (hnames : (namesIn scopes.nested).Nodup) :
    scopes.findLocal? name = some (slot, v) ↔
      outer.length < slot.scope ∧ scopes.local? slot = some v ∧ v.name = name := by
  have hin : scopes.inFunction := by simp [inFunction, hn, hf]
  rw [findLocal?, if_pos hin, findIn_eq_some_iff hnames]
  constructor
  · rintro ⟨found, scope, rest, hsplit, hk, hs, hl, hname⟩
    have hle := (passed_iff (hn.symm.trans hsplit) hf hi).1 hk
    exact ⟨by omega, (local?_eq_some_iff (by omega)).2 ⟨found, scope, rest, hsplit, hs, hl⟩, hname⟩
  · rintro ⟨hs, hl, hname⟩
    obtain ⟨found, scope, rest, hsplit, hscope, hl⟩ := (local?_eq_some_iff (by omega)).1 hl
    have hk := (passed_iff (hn.symm.trans hsplit) hf hi).2 (by omega)
    exact ⟨found, scope, rest, hsplit, hk, hscope, hl, hname⟩

/-- Whatever is called from the stack of a program on, the scope of the program stays at the bottom. In
every part of the stack, the locals from the innermost function of the part inwards have different
names, and in the part a name stands for just that local which has it and is not further out than the
function. A local that is refused changes nothing: it is one whose name is taken there. -/
theorem locals_of_calls (calls : List Call) :
    let scopes := calls.foldl perform .initial
    (0 < scopes.size ∧ scopes.scope? 0 = some scopes.outermost ∧
      scopes.outermost.bare = initial.outermost) ∧
    (∀ above inside function outer,
      scopes.nested = above ++ (inside ++ function :: outer) → function.kind = .function →
      (∀ scope ∈ inside, scope.kind ≠ .function) →
      (((inside ++ [function]).flatMap (·.locals)).map (·.name)).Nodup ∧
      ∀ name slot v, let part : ScopeStack := ⟨inside ++ function :: outer, scopes.outermost⟩
        part.findLocal? name = some (slot, v) ↔
          outer.length < slot.scope ∧ part.local? slot = some v ∧ v.name = name) ∧
    ∀ v conflict, scopes.addLocal v = .error conflict →
      scopes.perform (.addLocal v) = scopes ∧ v.name ∈ scopes.visible := by
  intro scopes
  obtain ⟨hbottom, hapart⟩ : scopes.outermost.bare = _ ∧ Apart scopes.nested := kept_of_calls calls
  refine ⟨⟨Nat.succ_pos _, rfl, hbottom⟩, fun above inside function outer hn hf hi => ?_,
    fun v conflict ha => ⟨?_, ?_⟩⟩
  · have hnames := hapart _ ⟨above, hn.symm⟩ (by simp [hf])
    exact ⟨namesIn_append_function hf hi ▸ hnames,
      fun name slot v => findLocal?_eq_some_iff rfl hf hi hnames⟩
  · rw [perform, ha]
  · rw [addLocal] at ha
    split at ha
    next ht => exact isSome_findLocal?.1 ht
    next => cases ha

/-- A block does not get a second local of a name, a function inside it does. When the function is left,
the name stands for the first one again. -/
example :
    let a : Variable := ⟨"a", .bool, [], false⟩
    let calls : List Call :=
      [.pushFunction .bool, .addLocal a, .push .ifBlock, .addLocal a, .pushFunction .bool, .addLocal a]
    (calls.foldl perform .initial).findLocal? "a" = some (⟨3, 0⟩, a) ∧
      ((calls ++ [Call.pop]).foldl perform .initial).findLocal? "a" = some (⟨1, 0⟩, a) := by
  decide

end ScopeStack

end MuLang
