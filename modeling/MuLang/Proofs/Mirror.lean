import Mathlib.Data.List.Forall2
import Mathlib.Data.List.Pairwise
import Mathlib.Data.Set.Insert
import MuLang.Proofs.Lexical
import MuLang.Proofs.Performance

/-!
# Scopes mirror the program

While the events of a program happen, the scopes hold just what is lexically in scope: scope by scope
the declarations of the open blocks, in their order, each as a local with the declared type. A local
has a value where its declaration gives it one, or else from the first assignment on.
-/
namespace MuLang

/-- A local of the scopes is a declaration in scope, where some declarations have been assigned to. -/
structure Known.Stands (assigned : Set Nat) (known : Known) (v : Variable) : Prop where
  name_eq : v.name = known.binding.name
  datatype_eq : known.binding.datatype = some v.datatype
  modifiers_eq : v.modifiers = known.binding.modifiers
  initialized_iff : v.initialized ↔ known.binding.valued ∨ known.place ∈ assigned

/-- Declarations with different names and places. -/
def Known.Apart (known other : Known) : Prop :=
  known.binding.name ≠ other.binding.name ∧ known.place ≠ other.place

namespace Known

variable {assigned later : Set Nat} {known : Known} {own : List Known} {v : Variable}
  {locals : List Variable} {index : Nat}

theorem Apart.symm {other : Known} (h : known.Apart other) : other.Apart known := ⟨h.1.symm, h.2.symm⟩

instance : Std.Symm Apart := ⟨fun _ _ => Apart.symm⟩

theorem Stands.congr (h : known.Stands assigned v) (hc : known.place ∈ assigned ↔ known.place ∈ later) :
    known.Stands later v :=
  ⟨h.name_eq, h.datatype_eq, h.modifiers_eq, h.initialized_iff.trans (or_congr_right hc)⟩

theorem stands_congr (h : List.Forall₂ (Stands assigned) own locals)
    (hc : ∀ known ∈ own, known.place ∈ assigned ↔ known.place ∈ later) :
    List.Forall₂ (Stands later) own locals := by
  induction h with
  | nil => exact .nil
  | cons hs _ ih =>
    obtain ⟨hfirst, hrest⟩ := List.forall_mem_cons.1 hc
    exact .cons (hs.congr hfirst) (ih hrest)

theorem names_eq (h : List.Forall₂ (Stands assigned) own locals) :
    own.map (·.binding.name) = locals.map (·.name) := by
  induction h with
  | nil => rfl
  | cons hs _ ih => rw [List.map_cons, List.map_cons, ih, hs.name_eq]

/-- Whether something else has been assigned to does not matter. -/
theorem Apart.mem_insert_iff {other : Known} (h : known.Apart other) :
    known.place ∈ assigned ↔ known.place ∈ insert other.place assigned :=
  (Set.mem_insert_iff.trans (or_iff_right h.2)).symm

/-- Marking the local of a declaration as initialized is assigning to the declaration. -/
theorem stands_mark (h : List.Forall₂ (Stands assigned) own locals) (hd : own.Pairwise Apart)
    (hi : locals[index]? = some v) : ∃ known ∈ own, known.Stands assigned v ∧
      List.Forall₂ (Stands (insert known.place assigned)) own
        (locals.modify index ({ · with initialized := true })) := by
  induction h generalizing index with
  | nil => cases hi
  | @cons known w own locals hs hrest ih =>
    obtain ⟨hfirst, hd⟩ := List.pairwise_cons.1 hd
    cases index with
    | zero =>
      obtain rfl := Option.some.inj hi
      refine ⟨known, .head _, hs, .cons ?_ ?_⟩
      · exact ⟨hs.name_eq, hs.datatype_eq, hs.modifiers_eq, by simp⟩
      · exact stands_congr hrest fun other ho => (hfirst other ho).symm.mem_insert_iff
    | succ index =>
      obtain ⟨other, ho, hstands, hmarked⟩ := ih hd hi
      exact ⟨other, .tail _ ho, hstands,
        .cons (hs.congr (hfirst other ho).mem_insert_iff) hmarked⟩

end Known

/-- Scopes, innermost first, hold what is declared in the blocks that they belong to. Around the
blocks there is the program, and functions are not nested. -/
inductive Levels (assigned : Set Nat) : List Surroundings → List Scope → Prop
  | outside : Levels assigned [.root] []
  | inside {around outer : Surroundings} {saved : List Surroundings} {scope : Scope}
      {rest : List Scope} {own : List Known} : Levels assigned (outer :: saved) rest →
      around.module = scope.module →
      around.inFunction = (decide (scope.kind = .function) || outer.inFunction) →
      (scope.kind = .function → outer.inFunction = false) →
      (around.inFunction = false → around.locals = []) →
      around.locals = own.reverse ++ outer.locals →
      List.Forall₂ (Known.Stands assigned) own scope.locals →
      Levels assigned (around :: outer :: saved) (scope :: rest)

namespace Levels

variable {assigned later : Set Nat} {around : Surroundings} {saved : List Surroundings}
  {scopes : List Scope} {name : String}

theorem locals_eq_nil (h : Levels assigned (around :: saved) scopes)
    (hf : around.inFunction = false) : around.locals = [] := by
  cases h with
  | outside => rfl
  | inside _ _ _ _ hn _ _ => exact hn hf

theorem inFunction_eq (h : Levels assigned (around :: saved) scopes) :
    scopes.any (·.kind = .function) = around.inFunction := by
  generalize hs : around :: saved = stack at h
  induction h generalizing around saved with
  | outside =>
    cases hs
    rfl
  | inside _ _ hf _ _ _ _ ih =>
    cases hs
    rw [List.any_cons, ih rfl, hf]

/-- Only what has been assigned among the declarations in scope matters. -/
theorem congr (h : Levels assigned (around :: saved) scopes)
    (hc : ∀ known ∈ around.locals, known.place ∈ assigned ↔ known.place ∈ later) :
    Levels later (around :: saved) scopes := by
  generalize hs : around :: saved = stack at h
  induction h generalizing around saved with
  | outside => exact .outside
  | inside _ hm hf hn hg hl hv ih =>
    cases hs
    rw [hl] at hc
    obtain ⟨hown, houter⟩ := List.forall_mem_append.1 hc
    refine .inside (ih houter rfl) hm hf hn hg hl (Known.stands_congr hv fun known hk => ?_)
    exact hown known (List.mem_reverse.2 hk)

/-- A name that no scope holds is not in scope. -/
theorem name_ne_of_findIn (h : Levels assigned (around :: saved) scopes)
    (hf : ScopeStack.findIn name scopes = none) : ∀ known ∈ around.locals, known.binding.name ≠ name := by
  generalize hs : around :: saved = stack at h
  induction h generalizing around saved with
  | outside =>
    cases hs
    exact fun _ hk => absurd hk List.not_mem_nil
  | @inside around outer saved scope rest own h _ _ hn _ hl hv ih =>
    cases hs
    rw [hl]
    obtain ⟨index, v, -, -, hfound⟩ | ⟨hnames, hrest⟩ := ScopeStack.findIn_cons name scope rest
    · rw [hfound] at hf
      cases hf
    · refine List.forall_mem_append.2 ⟨fun known hk => ?_, ?_⟩
      · have hm : known.binding.name ∈ scope.locals.map (·.name) := by
          rw [← Known.names_eq hv]
          exact List.mem_map_of_mem (List.mem_reverse.1 hk)
        obtain ⟨v, hm, hname⟩ := List.mem_map.1 hm
        exact hname ▸ hnames v hm
      · rw [hrest] at hf
        split at hf
        next hk =>
          rw [h.locals_eq_nil (hn hk)]
          exact fun _ hk => absurd hk List.not_mem_nil
        next => exact ih hf rfl

/-- A name that some scope holds is that of a declaration in scope. -/
theorem exists_of_findIn (h : Levels assigned (around :: saved) scopes)
    (hd : around.locals.Pairwise Known.Apart) {slot : LocalSlot} {v : Variable}
    (hf : ScopeStack.findIn name scopes = some (slot, v)) :
    slot.scope ≠ 0 ∧ slot.scope ≤ scopes.length ∧
      ∃ known ∈ around.locals, known.binding.name = name ∧ known.Stands assigned v ∧
        Levels (insert known.place assigned) (around :: saved)
          (scopes.modify (scopes.length - slot.scope)
            (ScopeStack.markInitialized · slot.index)) := by
  generalize hs : around :: saved = stack at h
  induction h generalizing around saved with
  | outside => cases hf
  | @inside around outer saved scope rest own h hm hi hn hg hl hv ih =>
    cases hs
    rw [hl] at hd
    obtain ⟨hown, houter, hacross⟩ := List.pairwise_append.1 hd
    obtain ⟨index, w, hw, hname, hfound⟩ | ⟨-, hrest⟩ := ScopeStack.findIn_cons name scope rest
    · -- The name is declared in this block, so the blocks around keep their locals.
      cases hfound.symm.trans hf
      have hown : own.Pairwise Known.Apart :=
        (List.pairwise_reverse.1 hown).imp Known.Apart.symm
      obtain ⟨known, hk, hstands, hmarked⟩ := Known.stands_mark hv hown hw
      refine ⟨Nat.succ_ne_zero _, Nat.le_refl _, known, ?_, hstands.name_eq ▸ hname, hstands, ?_⟩
      · rw [hl]
        exact List.mem_append_left _ (List.mem_reverse.2 hk)
      · have hlevels := h.congr fun other ho =>
          (hacross known (List.mem_reverse.2 hk) other ho).symm.mem_insert_iff
        rw [List.length_cons, Nat.sub_self, List.modify_zero_cons]
        exact .inside hlevels hm hi hn hg hl hmarked
    · -- The name is declared in a block around, so this one keeps its locals.
      rw [hrest] at hf
      split at hf
      next => cases hf
      next =>
        obtain ⟨hz, hle, known, hk, hname, hstands, hlevels⟩ := ih houter hf rfl
        refine ⟨hz, Nat.le_succ_of_le hle, known, hl ▸ List.mem_append_right _ hk, hname, hstands, ?_⟩
        have hown := Known.stands_congr hv fun other ho =>
          (hacross other (List.mem_reverse.2 ho) known hk).mem_insert_iff
        rw [List.length_cons, Nat.succ_sub hle, List.modify_succ_cons]
        exact .inside hlevels hm hi hn hg hl hown

end Levels

/-- The scopes hold what is lexically in scope at a point, of which no two declarations have the same
name. -/
structure Mirrors (assigned : Set Nat) (trail : Trail) (scopes : ScopeStack) : Prop where
  levels : Levels assigned (trail.current :: trail.saved) scopes.nested
  outermost_eq : scopes.outermost.module = []
  apart : trail.current.locals.Pairwise Known.Apart
  earlier : ∀ known ∈ trail.current.locals, known.place < trail.count
  assigned_earlier : ∀ place ∈ assigned, place < trail.count

namespace Surroundings

variable {around : Surroundings} {known : Known} {identifier : Token}

/-- The declaration that an event assigns to. -/
def target? (around : Surroundings) : Event → Option Known
  | .assign _ identifier _ => around.bound? identifier
  | _ => none

/-- The place of the declaration that an event assigns to, if there is one. -/
def targets (around : Surroundings) (event : Event) : Set Nat :=
  {place | ∃ known ∈ around.target? event, known.place = place}

theorem declare_of_inFunction (h : around.inFunction) (place : Nat) (binding : Binding) :
    around.declare place binding = { around with locals := ⟨place, binding⟩ :: around.locals } :=
  if_pos h

theorem declare_outside (h : around.inFunction = false) (place : Nat) (binding : Binding) :
    around.declare place binding = around :=
  if_neg (by simp [h])

/-- Of declarations with different names a name stands for the one that has it. -/
theorem bound?_of_mem (hd : around.locals.Pairwise Known.Apart) (hk : known ∈ around.locals)
    (hn : known.binding.name = identifier.text) (hi : ¬isDotted identifier.text) :
    around.bound? identifier = some known := by
  rw [bound?, if_neg hi]
  cases hf : around.locals.find? (·.binding.name = identifier.text) with
  | none => simpa [hn] using List.find?_eq_none.1 hf known hk
  | some other =>
    have ho : other.binding.name = identifier.text := by simpa using List.find?_some hf
    by_contra hne
    have hne : known ≠ other := fun he => hne (he ▸ rfl)
    have hapart := hd.forall hk (List.mem_of_find?_eq_some hf) hne
    exact hapart.1 (hn.trans ho.symm)

theorem mem_of_bound? (h : around.bound? identifier = some known) : known ∈ around.locals := by
  rw [bound?] at h
  split at h
  next => cases h
  next => exact List.mem_of_find?_eq_some h

theorem bound?_eq_none (h : ∀ known ∈ around.locals, known.binding.name ≠ identifier.text) :
    around.bound? identifier = none := by
  rw [bound?]
  split
  · rfl
  · simpa using h

end Surroundings

namespace Mirrors

variable {env : Env} {assigned : Set Nat} {trail : Trail} {scopes before after : ScopeStack}
  {identifier : Token} {place : Place} {v : Variable} {event : Event}

theorem start : Mirrors ∅ .start .initial :=
  ⟨.outside, rfl, .nil, by simp [Trail.start, Surroundings.root], by simp⟩

theorem inFunction_eq (h : Mirrors assigned trail scopes) :
    scopes.inFunction = trail.current.inFunction :=
  h.levels.inFunction_eq

theorem currentModule_eq (h : Mirrors assigned trail scopes) :
    scopes.currentModule = trail.current.module := by
  obtain ⟨hl, ho, -⟩ := h
  rcases trail with ⟨count, current, saved⟩
  rcases scopes with ⟨_ | ⟨scope, rest⟩, outermost⟩
  · cases hl
    exact ho
  · cases hl with
    | inside _ hm => exact hm.symm

theorem name_ne_of_findLocal? {name : String} (h : Mirrors assigned trail scopes)
    (hf : scopes.findLocal? name = none) :
    ∀ known ∈ trail.current.locals, known.binding.name ≠ name := by
  rw [ScopeStack.findLocal?] at hf
  split at hf
  next => exact h.levels.name_ne_of_findIn hf
  next hn =>
    rw [h.inFunction_eq, Bool.not_eq_true] at hn
    rw [h.levels.locals_eq_nil hn]
    exact fun _ hk => absurd hk List.not_mem_nil

/-- A name stands for the declaration that it is bound to, whose local is then given a value, or else
for a global. -/
theorem of_resolve (h : Mirrors assigned trail scopes)
    (hr : env.resolve scopes identifier = .ok ⟨place, v⟩) :
    (∃ known slot, trail.current.bound? identifier = some known ∧ place = .localAt slot ∧
      known.Stands assigned v ∧
      Mirrors (insert known.place assigned) trail (scopes.initializeLocal slot)) ∨
    ∃ owner, trail.current.bound? identifier = none ∧ place = .globalOf owner ∧
      env.table.resolveGlobal? trail.current.module identifier.text = some (owner, v) := by
  have hglobal (hg : env.global scopes.currentModule identifier = .ok ⟨place, v⟩) :
      ∃ owner, place = .globalOf owner ∧
        env.table.resolveGlobal? trail.current.module identifier.text = some (owner, v) := by
    obtain ⟨owner, w, he, ho⟩ := Env.resolveGlobal?_of_global hg
    cases he
    exact ⟨owner, rfl, h.currentModule_eq ▸ ho⟩
  rw [Env.resolve] at hr
  by_cases hi : isDotted identifier.text
  · rw [if_pos hi] at hr
    obtain ⟨owner, ho, hg⟩ := hglobal hr
    exact .inr ⟨owner, if_pos hi, ho, hg⟩
  · rw [if_neg hi] at hr
    cases hf : scopes.findLocal? identifier.text with
    | none =>
      rw [hf] at hr
      obtain ⟨owner, ho, hg⟩ := hglobal hr
      exact .inr ⟨owner, Surroundings.bound?_eq_none (h.name_ne_of_findLocal? hf), ho, hg⟩
    | some found =>
      obtain ⟨slot, w⟩ := found
      rw [hf] at hr
      cases hr
      rw [ScopeStack.findLocal?] at hf
      split at hf
      next =>
        obtain ⟨hz, -, known, hk, hn, hstands, hlevels⟩ := h.levels.exists_of_findIn h.apart hf
        refine .inl ⟨known, slot, Surroundings.bound?_of_mem h.apart hk hn hi, rfl, hstands, ?_⟩
        rw [ScopeStack.initializeLocal, if_neg hz]
        refine ⟨hlevels, h.outermost_eq, h.apart, h.earlier, fun other ho => ?_⟩
        obtain rfl | ho := Set.mem_insert_iff.1 ho
        · exact h.earlier known hk
        · exact h.assigned_earlier other ho
      next => cases hf

theorem stands_of_resolve {known : Known} (h : Mirrors assigned trail scopes)
    (hr : env.resolve scopes identifier = .ok ⟨place, v⟩)
    (hk : trail.current.bound? identifier = some known) :
    known.Stands assigned v ∧ ∃ slot, place = .localAt slot := by
  obtain ⟨other, slot, ho, hp, hstands, -⟩ | ⟨owner, hn, -⟩ := h.of_resolve hr
  · obtain rfl := Option.some.inj (hk.symm.trans ho)
    exact ⟨hstands, slot, hp⟩
  · cases hk.symm.trans hn

theorem resolveGlobal?_of_resolve (h : Mirrors assigned trail scopes)
    (hr : env.resolve scopes identifier = .ok ⟨place, v⟩)
    (hn : trail.current.bound? identifier = none) : ∃ owner, place = .globalOf owner ∧
      env.table.resolveGlobal? trail.current.module identifier.text = some (owner, v) := by
  obtain ⟨known, slot, hk, -⟩ | ⟨owner, -, hp, hg⟩ := h.of_resolve hr
  · cases hn.symm.trans hk
  · exact ⟨owner, hp, hg⟩

/-! ## Events -/

/-- An event that changes nothing. -/
theorem pass (h : Mirrors assigned trail scopes) :
    Mirrors assigned ⟨trail.count + 1, trail.current, trail.saved⟩ scopes :=
  ⟨h.levels, h.outermost_eq, h.apart, fun known hk => Nat.lt_succ_of_lt (h.earlier known hk),
    fun other ho => Nat.lt_succ_of_lt (h.assigned_earlier other ho)⟩

/-- At the start of a block nothing new is declared. -/
theorem enter (h : Mirrors assigned trail scopes) {current : Surroundings} {scope : Scope}
    (hm : current.module = scope.module) (hs : scope.locals = [])
    (hf : current.inFunction = (decide (scope.kind = .function) || trail.current.inFunction))
    (hn : scope.kind = .function → trail.current.inFunction = false)
    (hl : current.locals = trail.current.locals) :
    Mirrors assigned ⟨trail.count + 1, current, trail.current :: trail.saved⟩
      (scopes.enter scope) := by
  have hown : List.Forall₂ (Known.Stands assigned) [] scope.locals := hs ▸ .nil
  refine ⟨.inside h.levels hm hf hn (fun ho => ?_) ?_ hown, h.outermost_eq, ?_, ?_,
    h.pass.assigned_earlier⟩
  · rw [hf, Bool.or_eq_false_iff] at ho
    rw [hl, h.levels.locals_eq_nil ho.2]
  · exact hl
  · exact hl ▸ h.apart
  · exact hl ▸ h.pass.earlier

/-- At the end of a block what is declared in it goes out of scope. -/
theorem leave (h : Mirrors assigned trail scopes) (hn : scopes.nested ≠ []) :
    Mirrors assigned (trail.next .leave) scopes.pop := by
  obtain ⟨hl, ho, hd, he, ha⟩ := h.pass
  rcases trail with ⟨count, current, saved⟩
  rcases scopes with ⟨nested, outermost⟩
  cases hl with
  | outside => exact absurd rfl hn
  | inside hl _ _ _ _ hc _ =>
    dsimp only at hd he
    rw [hc] at hd he
    exact ⟨hl, ho, (List.pairwise_append.1 hd).2.1,
      fun known hk => he known (List.mem_append_right _ hk), ha⟩

/-- Nothing in scope has the name of a local that is declared. -/
theorem name_ne_of_addLocal (h : Mirrors assigned trail before)
    (ha : before.addLocal v = .ok after) :
    ∀ known ∈ trail.current.locals, known.binding.name ≠ v.name := by
  rw [ScopeStack.addLocal] at ha
  split at ha
  next => cases ha
  next hnone =>
    rw [Option.not_isSome_iff_eq_none] at hnone
    exact h.name_ne_of_findLocal? hnone

theorem declare (h : Mirrors assigned trail before) {binding : Binding} (hf : before.inFunction)
    (hb : binding.Describes v) (ha : before.addLocal v = .ok after) :
    Mirrors assigned (trail.next (.declare binding)) after := by
  have hnames := h.name_ne_of_addLocal ha
  have hin : trail.current.inFunction := h.inFunction_eq ▸ hf
  have hstands : Known.Stands assigned ⟨trail.count, binding⟩ v := by
    refine ⟨hb.name_eq, hb.datatype_eq, hb.modifiers_eq, ?_⟩
    rw [hb.valued_eq, or_iff_left]
    exact fun hm => Nat.lt_irrefl _ (h.assigned_earlier _ hm)
  have hapart : ∀ known ∈ trail.current.locals, Known.Apart ⟨trail.count, binding⟩ known :=
    fun known hk =>
      ⟨hb.name_eq ▸ (hnames known hk).symm, Nat.ne_of_gt (h.earlier known hk)⟩
  obtain ⟨-, -, -, he, hs⟩ := h.pass
  obtain ⟨hl, ho, hd, -, -⟩ := h
  rw [Trail.next, Surroundings.declare_of_inFunction hin]
  rcases trail with ⟨count, current, saved⟩
  rcases before with ⟨nested, outermost⟩
  rw [ScopeStack.addLocal] at ha
  split at ha
  next => cases ha
  next =>
    cases hl with
    | outside => cases hf
    | inside hl hm hi hn hg hc hv =>
      cases ha
      refine ⟨.inside hl hm hi hn ?_ ?_ (List.rel_append hv (.cons hstands .nil)), ho, ?_, ?_, hs⟩
      · exact fun hout => absurd (hout.symm.trans hin) Bool.false_ne_true
      · rw [List.reverse_append, List.reverse_singleton, hc]
        rfl
      · exact List.pairwise_cons.2 ⟨hapart, hd⟩
      · exact List.forall_mem_cons.2 ⟨Nat.lt_succ_self _, he⟩

/-- What every event does to the scopes, it does to what is in scope. -/
theorem next (h : Mirrors assigned trail before) (he : event.Happens env before after) :
    Mirrors (assigned ∪ trail.current.targets event) (trail.next event) after := by
  have hnone (hn : trail.current.target? event = none) :
      assigned ∪ trail.current.targets event = assigned := by
    simp [Surroundings.targets, hn]
  cases he with
  | module hf =>
    rw [hnone rfl]
    rw [h.inFunction_eq] at hf
    exact h.enter (congrArg (· ++ [_]) h.currentModule_eq.symm) rfl (by simp [hf]; rfl) nofun
      (h.levels.locals_eq_nil hf).symm
  | function hf =>
    rw [hnone rfl]
    rw [h.inFunction_eq] at hf
    exact h.enter h.currentModule_eq.symm rfl rfl (fun _ => hf) (h.levels.locals_eq_nil hf).symm
  | block hk =>
    rw [hnone rfl]
    exact h.enter h.currentModule_eq.symm rfl (by simp [hk]) (fun hk' => absurd hk' hk) rfl
  | leave hn =>
    rw [hnone rfl]
    exact h.leave hn
  | global hf =>
    rw [hnone rfl]
    rw [h.inFunction_eq] at hf
    rw [Trail.next, Surroundings.declare_outside hf]
    exact h.pass
  | declare hf hb ha =>
    rw [hnone rfl]
    exact h.declare hf hb ha
  | read =>
    rw [hnone rfl]
    exact h.pass
  | @assign type? type identifier operator value after ha hstored =>
    obtain ⟨place, v, stored, ha⟩ := Env.accepts_of_assign ha
    rw [ha.after_eq]
    obtain ⟨known, slot, hk, rfl, -, hmarked⟩ | ⟨owner, hk, rfl, -⟩ := h.of_resolve ha.resolved
    · have ht : assigned ∪ trail.current.targets (.assign type? identifier operator) =
          insert known.place assigned := by
        simp [Surroundings.targets, Surroundings.target?, hk]
      rw [ht]
      exact hmarked.pass
    · rw [hnone hk]
      exact h.pass

/-- What all events of a program do to the scopes, they do to what is in scope. -/
theorem of_runs {events : List Event} (h : Mirrors assigned trail before)
    (hr : Runs env before events after) :
    Mirrors (assigned ∪ {place | ∃ p ∈ trail.points events, place ∈ p.around.targets p.event})
      (trail.after events) after := by
  induction hr generalizing trail assigned with
  | nil => simpa [Trail.points] using h
  | @cons before between after event rest he _ ih =>
    have hnext := ih (h.next he)
    rw [Trail.after_cons]
    convert hnext using 1
    rw [Trail.points]
    split
    next hb =>
      have hn : trail.current.target? event = none := by
        cases event <;> first | rfl | cases hb
      simp [Surroundings.targets, hn]
    next =>
      ext place
      simp [or_assoc]

end Mirrors

/-! ## The points of a program -/

/-- The declaration that an assignment at a point gives a value. -/
def Point.target? (p : Point) : Option Known := p.around.target? p.event

theorem Runs.of_append {env : Env} {before after : ScopeStack} {first rest : List Event}
    (h : Runs env before (first ++ rest) after) :
    ∃ between, Runs env before first between ∧ Runs env between rest after := by
  induction first generalizing before with
  | nil => exact ⟨before, .nil, h⟩
  | cons event first ih =>
    cases h with
    | cons he h =>
      obtain ⟨between, hf, hr⟩ := ih h
      exact ⟨between, .cons he hf, hr⟩

/-- At every point of a program the scopes hold what is in scope there, where the declarations have
been assigned to that the program assigns to before the point. -/
theorem exists_mirrors {env : Env} {program : List Stmt} {final : ScopeStack}
    (hr : Runs env .initial (Stmt.eventsIn program) final) {p : Point}
    (hp : p ∈ Stmt.pointsIn .root 0 program) : ∃ saved scopes after,
      p.event.Happens env scopes after ∧
      Mirrors {place | ∃ q ∈ Stmt.pointsIn .root 0 program, q.place < p.place ∧
        ∃ known ∈ q.target?, known.place = place} ⟨p.place, p.around, saved⟩ scopes := by
  rw [Stmt.pointsIn_root] at hp ⊢
  obtain ⟨before, later, he, -, hpoint⟩ := Trail.exists_of_mem_points hp
  rw [he] at hr
  obtain ⟨scopes, hbefore, hrest⟩ := hr.of_append
  have hplace : p.place = before.length := (congrArg Point.place hpoint).trans (Nat.zero_add _)
  have htrail : (⟨p.place, p.around, (Trail.start.after before).saved⟩ : Trail) =
      Trail.start.after before := by
    rw [show p.place = (Trail.start.after before).count by simp [hplace, Trail.start],
      show p.around = (Trail.start.after before).current from congrArg Point.around hpoint]
  -- The points before this one are those of the events before it.
  have hpoints (q : Point) : q ∈ Trail.start.points before ↔
      q ∈ Trail.start.points (Stmt.eventsIn program) ∧ q.place < p.place := by
    rw [he, Trail.points_append, List.mem_append, hplace]
    constructor
    · intro hq
      have hlt := Trail.place_lt_of_mem_points hq
      exact ⟨.inl hq, by simpa [Trail.start] using hlt⟩
    · rintro ⟨hq | hq, hlt⟩
      · exact hq
      · have hle := Trail.le_place_of_mem_points hq
        simp [Trail.start] at hle
        omega
  have hmirrors := Mirrors.start.of_runs hbefore
  cases hrest with
  | cons hevent _ =>
    refine ⟨(Trail.start.after before).saved, scopes, _, hevent, ?_⟩
    rw [htrail]
    convert hmirrors using 1
    ext place
    simp [hpoints, Surroundings.targets, Point.target?, and_assoc]

end MuLang
