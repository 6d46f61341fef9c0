import MuLang.Proofs.Reference

/-!
# Deferred globals

A global whose type the first pass cannot infer on the spot is tried again after it, in rounds. In
the end each of them is declared, or its value cannot be typed against anything that is declared.
The rounds declare nothing else.
-/
namespace MuLang

/-- The value of a deferred global has a type that the global can take. -/
def DeferredGlobal.Typed (env : Env) (global : DeferredGlobal) : Prop :=
  ∃ context scopes after value type, scopes.inFunction = false ∧
    scopes.currentModule = global.module ∧
    env.expression global.value context scopes = (.ok value, after) ∧
    Step.inferredType? global.modifiers value.type = some type

namespace Session

/-- A table holds everything that a session has declared, and of what it has deferred everything
that can be typed at all. -/
structure Settled (session : Session) (table : SymbolTable) : Prop where
  contains : ∀ p, session.table.contains p → table.contains p
  hasGlobal : ∀ p name, session.table.HasGlobal p name → table.HasGlobal p name
  deferred : ∀ global ∈ session.deferred, table.contains global.module →
    table.HasGlobal global.module global.identifier.text ∨
      ¬global.Typed ⟨table, session.settings.access⟩

variable {session later last : Session} {table : SymbolTable} {global : DeferredGlobal}
  {pending more : List DeferredGlobal}

/-- What is settled at last has always been. -/
theorem Grows.settled (h : session.Grows later) (ht : later.Settled table) :
    session.Settled table :=
  ⟨fun p hp => ht.contains p (h.contains p hp), fun p name hg => ht.hasGlobal p name
    (h.hasGlobal p name hg), fun global hd => h.settings_eq ▸ ht.deferred global (h.deferred hd)⟩

/-- Rounds over some deferred globals declare at most these. -/
structure Retried (pending : List DeferredGlobal) (session later : Session) : Prop where
  pass_eq : later.pass = session.pass
  settings_eq : later.settings = session.settings
  scopes_eq : later.scopes = session.scopes
  skeleton_eq : later.table.skeleton = session.table.skeleton
  grows : session.Grows later
  global? : ∀ p name v, (later.table.module p).global? name = some v →
    (session.table.module p).global? name = some v ∨
      ∃ global ∈ pending, global.module = p ∧ v.Registers name global.modifiers ∧
        global.identifier.text = name

namespace Retried

theorem refl (session : Session) : session.Retried [] session :=
  ⟨rfl, rfl, rfl, rfl, .refl _, fun _ _ _ h => .inl h⟩

theorem trans (h : Retried pending session later) (hl : Retried more later last) :
    Retried (pending ++ more) session last := by
  refine ⟨hl.pass_eq.trans h.pass_eq, hl.settings_eq.trans h.settings_eq,
    hl.scopes_eq.trans h.scopes_eq, hl.skeleton_eq.trans h.skeleton_eq, h.grows.trans hl.grows,
    fun p name v hg => ?_⟩
  obtain hg | ⟨global, hm, hp⟩ := hl.global? p name v hg
  · obtain hg | ⟨global, hm, hp⟩ := h.global? p name v hg
    · exact .inl hg
    · exact .inr ⟨global, List.mem_append_left _ hm, hp⟩
  · exact .inr ⟨global, List.mem_append_right _ hm, hp⟩

theorem mono (h : Retried pending session later) (hs : pending ⊆ more) :
    Retried more session later :=
  { h with
    global? := fun p name v hg => (h.global? p name v hg).imp_right
      fun ⟨global, hm, hp⟩ => ⟨global, hs hm, hp⟩ }

theorem vacant (h : Retried pending session later) (hv : session.scopes.Vacant) :
    later.scopes.Vacant := h.scopes_eq.symm ▸ hv

theorem contains_iff (h : Retried pending session later) {p : ModulePath} :
    later.table.contains p ↔ session.table.contains p := by
  rw [← SymbolTable.contains_skeleton, h.skeleton_eq, SymbolTable.contains_skeleton]

end Retried

/-! ## One deferred global -/

/-- A global that is registered is there afterwards, whether or not it has been before. -/
theorem hasGlobal_register {path : ModulePath} {v : Variable} (hc : table.contains path) :
    ((table.addVariable path v).toOption.getD table).HasGlobal path v.name := by
  cases ha : table.addVariable path v with
  | ok extended => exact (SymbolTable.hasGlobal_addVariable ha).2 (.inr ⟨rfl, rfl, hc⟩)
  | error conflict =>
    unfold SymbolTable.addVariable at ha
    split at ha
    next hg => exact hg
    next => cases ha

theorem global?_of_register {path p : ModulePath} {name : String} {v found : Variable}
    (h : (((table.addVariable path v).toOption.getD table).module p).global? name = some found) :
    (table.module p).global? name = some found ∨ (path = p ∧ v.name = name ∧ v = found) := by
  cases ha : table.addVariable path v with
  | ok extended =>
    have hg : (extended.module p).global? name = some found := by
      rw [ha] at h
      exact h
    rw [SymbolTable.global?_addVariable ha] at hg
    split at hg
    next hp => exact .inr ⟨hp.1.symm, hp.2.1.symm, Option.some.inj hg⟩
    next => exact .inl hg
  | error conflict =>
    rw [ha] at h
    exact .inl h

theorem skeleton_register {path : ModulePath} {v : Variable} :
    ((table.addVariable path v).toOption.getD table).skeleton = table.skeleton := by
  cases ha : table.addVariable path v with
  | ok extended => exact SymbolTable.skeleton_addVariable ha
  | error conflict => rfl

theorem grows_register {path : ModulePath} {v : Variable} (hv : v.initialized) :
    session.Grows { session with
      table := (session.table.addVariable path v).toOption.getD session.table } := by
  cases ha : session.table.addVariable path v with
  | ok extended => exact .of_addVariable hv ha
  | error conflict => exact .refl session

/-- The session inside of a module. -/
def insideModule (session : Session) (module : ModulePath) : Session :=
  { session with scopes := session.scopes.pushIn .module module }

/-- Where there are no locals the type of a global is inferred without any change. -/
theorem inferGlobal?_eq (hv : session.scopes.Vacant) (global : DeferredGlobal) :
    Step.inferGlobal? global session =
      (.ok ((session.env.expression global.value global.typeKeyword session.scopes).1.toOption.bind
        fun value => Step.inferredType? global.modifiers value.type), session) := by
  have hs := session.env.rests_expression global.value global.typeKeyword hv
  have hx : Step.expression global.value global.typeKeyword session =
      ((session.env.expression global.value global.typeKeyword session.scopes).1, session) :=
    Prod.ext rfl (congrArg (fun scopes => { session with scopes }) hs)
  unfold Step.inferGlobal?
  rw [hx]
  cases (session.env.expression global.value global.typeKeyword session.scopes).1 <;> rfl

/-- A deferred global can be typed inside its module if it can be at all. -/
theorem inferGlobal?_cases (hv : session.scopes.Vacant) (global : DeferredGlobal) :
    (∃ type, Step.inferGlobal? global (session.insideModule global.module) =
      (.ok (some type), session.insideModule global.module)) ∨
    ¬global.Typed session.env ∧ Step.inferGlobal? global (session.insideModule global.module) =
      (.ok none, session.insideModule global.module) := by
  have hi : (session.insideModule global.module).scopes.Vacant := hv.pushIn global.module
  rw [inferGlobal?_eq hi]
  cases ht : (session.env.expression global.value global.typeKeyword
      (session.insideModule global.module).scopes).1.toOption.bind
        fun value => Step.inferredType? global.modifiers value.type with
  | some type => exact .inl ⟨type, congrArg (fun type? => (Except.ok type?, _)) ht⟩
  | none =>
    refine .inr ⟨?_, congrArg (fun type? => (Except.ok type?, _)) ht⟩
    -- Whatever can be typed elsewhere outside functions can be typed here as well.
    rintro ⟨context, scopes, last, value, type, hs, hm, hx, hinferred⟩
    have hr : session.env.expression global.value global.typeKeyword
        (session.insideModule global.module).scopes = (.ok value, _) :=
      (Env.expression_outside (ScopeStack.vacant_of_outside hs) hi hm.symm hx).2
    rw [hr] at ht
    cases ht.symm.trans hinferred

/-- Inside its module no type is inferred for a global that cannot be typed. -/
theorem inferGlobal?_of_not_typed (hv : session.scopes.Vacant) (hn : ¬global.Typed session.env) :
    Step.inferGlobal? global (session.insideModule global.module) =
      (.ok none, session.insideModule global.module) := by
  obtain ⟨type, hi⟩ | ⟨-, hi⟩ := inferGlobal?_cases hv global
  · refine absurd ?_ hn
    have hmodule : (session.insideModule global.module).scopes.Vacant := hv.pushIn global.module
    rw [inferGlobal?_eq hmodule] at hi
    obtain ⟨value, hx, ht⟩ := Option.bind_eq_some_iff.1 (Except.ok.inj (Prod.mk.inj hi).1)
    -- The scopes may be inside of a function, and those of the module at the top level are not.
    have hout : (ScopeStack.initial.pushIn .module global.module).inFunction = false := rfl
    rcases hr : session.env.expression global.value global.typeKeyword
      (session.insideModule global.module).scopes with ⟨error | other, after⟩
    · cases (congrArg (fun result => result.1.toOption) hr).symm.trans hx
    · obtain rfl : other = value :=
        Option.some.inj ((congrArg (fun result => result.1.toOption) hr).symm.trans hx)
      exact ⟨global.typeKeyword, _, _, other, type, hout, rfl, (Env.expression_outside hmodule
        (ScopeStack.vacant_of_outside hout) rfl hr).2, ht⟩
  · exact hi

/-- A deferred global is registered, with the type that it has inside its module, or nothing happens
and its value cannot be typed. -/
theorem retry_cases (hv : session.scopes.Vacant) (global : DeferredGlobal) :
    (∃ v : Variable, v.Registers global.identifier.text global.modifiers ∧
      Step.inferGlobal? global (session.insideModule global.module) =
        (.ok (some v.datatype), session.insideModule global.module) ∧
      session.retry global = (true, { session with
        table := (session.table.addVariable global.module v).toOption.getD session.table })) ∨
    ¬global.Typed session.env ∧ session.retry global = (false, session) := by
  obtain ⟨type, hi⟩ | ⟨hn, hi⟩ := inferGlobal?_cases hv global
  · refine .inl ⟨⟨global.identifier.text, type, Token.modifiers global.modifiers, true⟩,
      ⟨rfl, rfl, rfl⟩, hi, ?_⟩
    have hr (left : Session) : Step.registerGlobal global.module global.identifier
        global.modifiers type left = (.ok (), _) := Step.registerGlobal_eq_ok.2 rfl
    unfold insideModule at hi
    simp only [retry, hi, hr]
    rfl
  · unfold insideModule at hi
    simp only [retry, hi]
    exact .inr ⟨hn, rfl⟩

theorem retried_retry (hv : session.scopes.Vacant) (global : DeferredGlobal) :
    Retried [global] session (session.retry global).2 := by
  obtain ⟨v, hv, -, hr⟩ | ⟨-, hr⟩ := retry_cases hv global
  · rw [hr]
    refine ⟨rfl, rfl, rfl, skeleton_register, grows_register hv.initialized,
      fun p name found hg => ?_⟩
    obtain hg | ⟨hp, rfl, rfl⟩ := global?_of_register hg
    · exact .inl hg
    · exact .inr ⟨global, List.mem_singleton_self _, hp, hv.name_eq ▸ hv, hv.name_eq.symm⟩
  · rw [hr]
    exact (Retried.refl session).mono (List.nil_subset _)

/-! ## Rounds -/

theorem retryRound_cons (session : Session) (global : DeferredGlobal)
    (rest : List DeferredGlobal) :
    session.retryRound (global :: rest) =
      ((if (session.retry global).1 then [] else [global]) ++
        ((session.retry global).2.retryRound rest).1, ((session.retry global).2.retryRound rest).2) := by
  rw [retryRound]
  rcases session.retry global with ⟨_ | _, after⟩ <;> rfl

theorem retryRound_sublist (session : Session) (pending : List DeferredGlobal) :
    (session.retryRound pending).1.Sublist pending := by
  induction pending generalizing session with
  | nil => exact .slnil
  | cons global rest ih =>
    rw [retryRound_cons]
    split
    · exact (ih _).cons _
    · exact (ih _).cons_cons _

theorem retried_retryRound (hv : session.scopes.Vacant) :
    Retried pending session (session.retryRound pending).2 := by
  induction pending generalizing session with
  | nil => exact .refl _
  | cons global rest ih =>
    have hr := retried_retry hv global
    rw [retryRound_cons]
    exact hr.trans (ih (hr.vacant hv))

/-- A round declares a global or leaves it. -/
theorem retryRound_cases (hv : session.scopes.Vacant) (hg : global ∈ pending)
    (hc : session.table.contains global.module) : global ∈ (session.retryRound pending).1 ∨
      (session.retryRound pending).2.table.HasGlobal global.module global.identifier.text := by
  induction pending generalizing session with
  | nil => cases hg
  | cons first rest ih =>
    have hr := retried_retry hv first
    rw [retryRound_cons]
    obtain rfl | hg := List.mem_cons.1 hg
    · obtain ⟨v, hregisters, -, he⟩ | ⟨-, he⟩ := retry_cases hv global
      · refine .inr ((retried_retryRound (hr.vacant hv)).grows.hasGlobal _ _ ?_)
        rw [he, ← hregisters.name_eq]
        exact hasGlobal_register hc
      · exact .inl (by simp [he])
    · exact (ih (hr.vacant hv) hg (hr.contains_iff.2 hc)).imp_left (List.mem_append_right _)

/-- A round that declares nothing leaves the table, and nothing can be typed then. -/
theorem retryRound_stuck (hv : session.scopes.Vacant)
    (hl : (session.retryRound pending).1.length = pending.length) :
    (session.retryRound pending).2.table = session.table ∧
      ∀ global ∈ pending, ¬global.Typed session.env := by
  induction pending generalizing session with
  | nil => exact ⟨rfl, by simp⟩
  | cons global rest ih =>
    have hs := (retryRound_sublist (session.retry global).2 rest).length_le
    rw [retryRound_cons] at hl ⊢
    obtain ⟨v, -, -, he⟩ | ⟨ht, he⟩ := retry_cases hv global
    · simp only [he, if_true, List.nil_append, List.length_cons] at hl hs
      omega
    · rw [he] at hl ⊢
      have hrest := ih hv (by simpa using hl)
      exact ⟨hrest.1, List.forall_mem_cons.2 ⟨ht, hrest.2⟩⟩

/-- What comes of the rounds over some deferred globals: how many rounds there are, what the last of
them leaves, and the session after it. -/
structure Rounds where
  count : Nat
  left : List DeferredGlobal
  last : Session

/-- The rounds over some deferred globals, until one of them finds no further type. -/
def rounds (session : Session) (pending : List DeferredGlobal) : Rounds :=
  let (left, after) := session.retryRound pending
  if left.length < pending.length then
    let rest := after.rounds left
    { rest with count := rest.count + 1 }
  else ⟨1, left, after⟩
termination_by pending.length

theorem last_rounds (session : Session) (pending : List DeferredGlobal) :
    (session.rounds pending).last = session.resolveDeferred pending := by
  induction session, pending using rounds.induct with
  | case1 session pending left after hround hlt ih =>
    rw [rounds, resolveDeferred, hround]
    simp only [hlt, if_true]
    exact ih
  | case2 session pending left after hround hlt =>
    rw [rounds, resolveDeferred, hround]
    simp only [hlt, if_false]

/-- All rounds but the last one leave fewer globals than they find. -/
theorem count_rounds_le (session : Session) (pending : List DeferredGlobal) :
    (session.rounds pending).count ≤ pending.length + 1 := by
  induction session, pending using rounds.induct with
  | case1 session pending left after hround hlt ih =>
    rw [rounds, hround]
    simp only [hlt, if_true]
    omega
  | case2 session pending left after hround hlt =>
    rw [rounds, hround]
    simp only [hlt, if_false]
    omega

theorem left_rounds_sublist (session : Session) (pending : List DeferredGlobal) :
    (session.rounds pending).left.Sublist pending := by
  induction session, pending using rounds.induct with
  | case1 session pending left after hround hlt ih =>
    have hs := retryRound_sublist session pending
    rw [hround] at hs
    rw [rounds, hround]
    simp only [hlt, if_true]
    exact ih.trans hs
  | case2 session pending left after hround hlt =>
    have hs := retryRound_sublist session pending
    rw [hround] at hs
    rw [rounds, hround]
    simp only [hlt, if_false]
    exact hs

/-- The rounds declare the globals that they do not leave, and what they leave cannot be typed where
they end. -/
theorem rounds_spec (session : Session) (pending : List DeferredGlobal)
    (hv : session.scopes.Vacant) :
    Retried pending session (session.rounds pending).last ∧
      (∀ global ∈ pending, session.table.contains global.module →
        global ∈ (session.rounds pending).left ∨ (session.rounds pending).last.table.HasGlobal
          global.module global.identifier.text) ∧
      ∀ global ∈ (session.rounds pending).left, ¬global.Typed (session.rounds pending).last.env := by
  induction session, pending using rounds.induct with
  | case1 session pending left after hround hlt ih =>
    have hr : Retried pending session (session.retryRound pending).2 := retried_retryRound hv
    have hs := retryRound_sublist session pending
    have hcases {global : DeferredGlobal} (hg : global ∈ pending) := retryRound_cases hv hg
    rw [hround] at hr hs
    simp only [hround] at hcases
    obtain ⟨hrest, hdeclared, hstuck⟩ := ih (hr.vacant hv)
    rw [rounds, hround]
    simp only [hlt, if_true]
    refine ⟨(hr.trans hrest).mono ?_, fun global hg hc => ?_, hstuck⟩
    · exact List.append_subset.2 ⟨List.Subset.refl _, hs.subset⟩
    · obtain hg | hg := hcases hg hc
      · exact hdeclared global hg (hr.contains_iff.2 hc)
      · exact .inr (hrest.grows.hasGlobal _ _ hg)
  | case2 session pending left after hround hlt =>
    have hr : Retried pending session (session.retryRound pending).2 := retried_retryRound hv
    have hs := retryRound_sublist session pending
    have hl : left = pending := by
      rw [hround] at hs
      exact hs.eq_of_length_le (Nat.le_of_not_lt hlt)
    obtain ⟨ht, hn⟩ := @retryRound_stuck _ pending hv (by rw [hround, hl])
    rw [hround] at hr ht
    rw [rounds, hround]
    simp only [hlt, if_false]
    have he : after.env = session.env := by
      rw [env, env, ht, hr.settings_eq]
    subst hl
    exact ⟨hr, fun global hg _ => .inl hg, fun global hg => he ▸ hn global hg⟩

/-- The rounds end when all that can be typed is declared. -/
theorem resolveDeferred_spec (session : Session) (pending : List DeferredGlobal)
    (hv : session.scopes.Vacant) :
    Retried pending session (session.resolveDeferred pending) ∧
      ∀ global ∈ pending, session.table.contains global.module →
        (session.resolveDeferred pending).table.HasGlobal global.module global.identifier.text ∨
          ¬global.Typed (session.resolveDeferred pending).env := by
  rw [← last_rounds]
  obtain ⟨hretried, hdeclared, hstuck⟩ := rounds_spec session pending hv
  exact ⟨hretried, fun global hg hc => (hdeclared global hg hc).symm.imp_right (hstuck global)⟩

/-- After the rounds everything that the first pass has found is settled. -/
theorem settled_resolveDeferred (session : Session) (hv : session.scopes.Vacant) :
    session.Settled ({ session with deferred := [] }.resolveDeferred session.deferred).table := by
  obtain ⟨hr, hs⟩ := resolveDeferred_spec { session with deferred := [] } session.deferred hv
  refine ⟨hr.grows.contains, hr.grows.hasGlobal, fun global hg hc => ?_⟩
  have hd := hs global hg (hr.contains_iff.1 hc)
  rwa [env, hr.settings_eq] at hd

end Session

end MuLang
