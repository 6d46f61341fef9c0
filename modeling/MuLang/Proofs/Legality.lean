import MuLang.Proofs.Agreement
import MuLang.Proofs.Seclusion
import MuLang.Proofs.Writing

/-!
# Where statements stand

In a program that is parsed without an error modules stand at the top level and in modules, what is
declared for everyone in modules, or at the top level in standard-library mode, and everything else
in functions. The scopes of the second pass are those of the blocks around a statement, so what a
statement asks of its scopes it asks of these blocks.
-/
namespace MuLang

/-! ## Standings -/

/-- The sorts of statement that differ in where they may stand. -/
inductive Stmt.Rank where
  | module
  | function
  | native
  | variable
  /-- An assignment, a call, a branch, a loop or a `return`. -/
  | ordinary
  /-- The end of standard-library mode. -/
  | finish
  deriving DecidableEq

def Stmt.rank : Stmt → Rank
  | .module .. => .module
  | .function .. => .function
  | .native .. => .native
  | .declare .. | .define .. => .variable
  | .action .. | .ifElse .. | .whileLoop .. | .forLoop .. | .returning .. => .ordinary
  | .stdlibFinish .. => .finish

/-- A statement of some sort, with the kinds of the blocks around it, innermost first. -/
structure Standing where
  around : List ScopeKind
  rank : Stmt.Rank
  deriving DecidableEq

mutual

/-- A statement and all statements inside it, in the order of the text. -/
def Stmt.standings (around : List ScopeKind) : Stmt → List Standing
  | .module _ body => ⟨around, .module⟩ :: Stmt.standingsIn (.module :: around) body
  | .function _ body => ⟨around, .function⟩ :: Stmt.standingsIn (.function :: around) body
  | .ifElse _ _ body otherwise =>
    ⟨around, .ordinary⟩ ::
      (Stmt.standingsIn (.ifBlock :: around) body ++ otherwise.standings around)
  | .whileLoop _ _ body => ⟨around, .ordinary⟩ :: Stmt.standingsIn (.whileBlock :: around) body
  | .forLoop _ _ _ _ _ body => ⟨around, .ordinary⟩ :: Stmt.standingsIn (.forBlock :: around) body
  | .native .. => [⟨around, .native⟩]
  | .declare .. => [⟨around, .variable⟩]
  | .define .. => [⟨around, .variable⟩]
  | .action .. => [⟨around, .ordinary⟩]
  | .returning .. => [⟨around, .ordinary⟩]
  | .stdlibFinish .. => [⟨around, .finish⟩]

/-- The statements in the branches that follow an `if`. -/
def Else.standings (around : List ScopeKind) : Else → List Standing
  | .absent => []
  | .block body => Stmt.standingsIn (.ifBlock :: around) body
  | .elseIf _ _ body otherwise =>
    Stmt.standingsIn (.ifBlock :: around) body ++ otherwise.standings around

/-- The statements of a block and all statements inside them. -/
def Stmt.standingsIn (around : List ScopeKind) : List Stmt → List Standing
  | [] => []
  | stmt :: rest => stmt.standings around ++ Stmt.standingsIn around rest

end

namespace Standing

/-- A statement stands where it may. The flag tells whether standard-library mode is on. -/
structure Legal (stdlib : Bool) (standing : Standing) : Prop where
  /-- Modules stand at the top level or directly in a module. -/
  modules : standing.rank = .module → standing.around = [] ∨ standing.around.head? = some .module
  /-- Functions, native functions and globals stand directly in a module, or at the top level of the
  standard library. A variable outside of all functions is a global. -/
  globals : standing.rank = .function ∨ standing.rank = .native ∨
      (standing.rank = .variable ∧ .function ∉ standing.around) →
    standing.around.head? = some .module ∨ standing.around = [] ∧ stdlib
  /-- All else but the end of standard-library mode stands in a function. -/
  ordinary : standing.rank = .ordinary → .function ∈ standing.around
  /-- No module and no function stands in a function. -/
  secluded : .function ∈ standing.around →
    standing.rank ≠ .module ∧ standing.rank ≠ .function ∧ standing.rank ≠ .native

/-- Whether standard-library mode goes on after a statement. -/
def leaves (stdlib : Bool) (standing : Standing) : Bool := stdlib && standing.rank ≠ .finish

/-- Statements in the order of the text stand where they may. -/
def LegalIn (stdlib : Bool) : List Standing → Prop
  | [] => True
  | standing :: rest => standing.Legal stdlib ∧ LegalIn (leaves stdlib standing) rest

theorem legalIn_append {stdlib : Bool} {standings more : List Standing} :
    LegalIn stdlib (standings ++ more) ↔
      LegalIn stdlib standings ∧ LegalIn (standings.foldl leaves stdlib) more := by
  induction standings generalizing stdlib with
  | nil => simp [LegalIn]
  | cons standing rest ih => simp [LegalIn, ih, and_assoc]

theorem foldl_leaves (stdlib : Bool) (standings : List Standing) :
    standings.foldl leaves stdlib = (stdlib && standings.all (·.rank ≠ .finish)) := by
  induction standings generalizing stdlib with
  | nil => simp
  | cons standing rest ih => rw [List.foldl_cons, ih, leaves, List.all_cons, Bool.and_assoc]

end Standing

/-! ## Standings of what is written -/

/-- The statement that a block belongs to. A branch belongs to the `if` before it. -/
def Owner.standings (around : List ScopeKind) : Owner → List Standing
  | .statement stmt => [⟨around, stmt.rank⟩]
  | _ => []

mutual

/-- The statements that lines and blocks say, in the order of the text. -/
def Written.standings (around : List ScopeKind) : Written → List Standing
  | .line stmt => [⟨around, stmt.rank⟩]
  | .block owner body => owner.standings around ++ Written.standingsIn (owner.kind :: around) body

def Written.standingsIn (around : List ScopeKind) : List Written → List Standing
  | [] => []
  | written :: rest => written.standings around ++ Written.standingsIn around rest

end

theorem Written.standingsIn_append (around : List ScopeKind) (written more : List Written) :
    standingsIn around (written ++ more) =
      standingsIn around written ++ standingsIn around more := by
  induction written with
  | nil => rfl
  | cons first rest ih => rw [List.cons_append, standingsIn, standingsIn, ih, List.append_assoc]

mutual

/-- A statement stands where it is written. -/
theorem Stmt.standingsIn_written (around : List ScopeKind) : ∀ stmt : Stmt,
    Written.standingsIn around stmt.written = stmt.standings around
  | .module _ body | .function _ body | .whileLoop _ _ body | .forLoop _ _ _ _ _ body => by
    simp [Stmt.written, Stmt.standings, Written.standingsIn, Written.standings, Owner.standings,
      Owner.kind, Stmt.blockKind?, Stmt.rank, Stmt.standingsIn_writtenAll _ body]
  | .ifElse _ _ body otherwise => by
    simp [Stmt.written, Stmt.standings, Written.standingsIn, Written.standings, Owner.standings,
      Owner.kind, Stmt.blockKind?, Stmt.rank, Stmt.standingsIn_writtenAll _ body,
      Else.standingsIn_written _ otherwise]
  | .native .. | .declare .. | .define .. | .action .. | .returning .. | .stdlibFinish .. => rfl

theorem Else.standingsIn_written (around : List ScopeKind) : ∀ otherwise : Else,
    Written.standingsIn around otherwise.written = otherwise.standings around
  | .absent => rfl
  | .block body => by
    simp [Else.written, Else.standings, Written.standingsIn, Written.standings, Owner.standings,
      Owner.kind, Stmt.standingsIn_writtenAll _ body]
  | .elseIf _ _ body otherwise => by
    simp [Else.written, Else.standings, Written.standingsIn, Written.standings, Owner.standings,
      Owner.kind, Stmt.standingsIn_writtenAll _ body, Else.standingsIn_written _ otherwise]

theorem Stmt.standingsIn_writtenAll (around : List ScopeKind) : ∀ statements : List Stmt,
    Written.standingsIn around (Stmt.writtenAll statements) = Stmt.standingsIn around statements
  | [] => rfl
  | stmt :: rest => by
    rw [Stmt.writtenAll, Written.standingsIn_append, Stmt.standingsIn_written around stmt,
      Stmt.standingsIn_writtenAll around rest, Stmt.standingsIn]

end

/-! ## Sessions inside of blocks -/

/-- A session stands between two statements of a block, with blocks of some kinds around it. -/
structure Session.Within (around : List ScopeKind) (session : Session) : Prop where
  blockKinds_eq : session.scopes.blockKinds = around
  head?_ne : session.scopes.kinds.head? ≠ some .loopHeader
  outermost_eq : session.scopes.outermost.kind = .program
  nested : .program ∉ around
  /-- What is around a module are modules. -/
  modules : around.head? = some .module → ∀ kind ∈ around, kind = .module

namespace Session.Within

variable {around : List ScopeKind} {s t : Session}

theorem start (session : Session) (pass : Pass) :
    (Reading.start session pass).session.Within [] :=
  ⟨rfl, by simp [Reading.start, ScopeStack.initial, ScopeStack.kinds], rfl, List.not_mem_nil,
    by simp⟩

theorem of_bare (h : s.Within around) (hb : t.scopes.bare = s.scopes.bare) : t.Within around := by
  have hk : t.scopes.kinds = s.scopes.kinds := by
    rw [← ScopeStack.kinds_bare, hb, ScopeStack.kinds_bare]
  have ho : t.scopes.outermost.kind = s.scopes.outermost.kind :=
    congrArg (fun scopes => scopes.outermost.kind) hb
  refine ⟨?_, hk ▸ h.head?_ne, ho.trans h.outermost_eq, h.nested, h.modules⟩
  rw [ScopeStack.blockKinds, hk]
  exact h.blockKinds_eq

theorem currentKind_eq (h : s.Within around) :
    s.scopes.currentKind = around.head?.getD .program := by
  obtain ⟨hk, hn, ho, -, -⟩ := h
  unfold ScopeStack.blockKinds ScopeStack.kinds at *
  cases hs : s.scopes.nested with
  | nil =>
    rw [hs] at hk
    simp [ScopeStack.currentKind, ScopeStack.current, hs, ho, ← hk]
  | cons scope rest =>
    have hloop : scope.kind ≠ .loopHeader := by simpa [hs] using hn
    simp [ScopeStack.currentKind, ScopeStack.current, hs, hloop, ← hk]

theorem inFunction_iff (h : s.Within around) : s.scopes.inFunction ↔ .function ∈ around := by
  rw [ScopeStack.inFunction_iff, h.blockKinds_eq]

theorem currentKind_eq_program (h : s.Within around) :
    s.scopes.currentKind = .program ↔ around = [] := by
  rw [h.currentKind_eq]
  have hn := h.nested
  cases around with
  | nil => simp
  | cons kind rest =>
    rw [List.mem_cons, not_or] at hn
    simpa using Ne.symm hn.1

theorem currentKind_eq_module (h : s.Within around) :
    s.scopes.currentKind = .module ↔ around.head? = some .module := by
  rw [h.currentKind_eq]
  cases around <;> simp

theorem not_function (h : s.Within around) (ha : around = [] ∨ around.head? = some .module) :
    .function ∉ around := by
  obtain rfl | hm := ha
  · exact List.not_mem_nil
  · exact fun hf => nomatch h.modules hm _ hf

/-! ## What may stand in a session -/

theorem legal_module (h : s.Within around)
    (hk : s.scopes.currentKind = .program ∨ s.scopes.currentKind = .module) :
    Standing.Legal s.stdlib ⟨around, .module⟩ := by
  rw [h.currentKind_eq_program, h.currentKind_eq_module] at hk
  exact ⟨fun _ => hk, by simp, nofun, fun hf => absurd hf (h.not_function hk)⟩

theorem global_of_admits (h : s.Within around) (ha : s.admitsGlobals) :
    around.head? = some .module ∨ around = [] ∧ s.stdlib := by
  unfold Session.admitsGlobals at ha
  split at ha
  next hk => exact .inl (h.currentKind_eq_module.1 hk)
  next hk => exact .inr ⟨h.currentKind_eq_program.1 hk, ha⟩
  next => cases ha

theorem legal_global (h : s.Within around) (ha : s.admitsGlobals) {rank : Stmt.Rank}
    (hr : rank = .function ∨ rank = .native) : Standing.Legal s.stdlib ⟨around, rank⟩ := by
  have hg := h.global_of_admits ha
  have hn := h.not_function (hg.symm.imp And.left id)
  refine ⟨?_, fun _ => hg, ?_, fun hf => absurd hf hn⟩ <;> rintro rfl <;> simp at hr

theorem legal_variable (h : s.Within around) (ha : s.admitsGlobals = false → s.scopes.inFunction) :
    Standing.Legal s.stdlib ⟨around, .variable⟩ := by
  refine ⟨nofun, ?_, nofun, fun _ => ⟨nofun, nofun, nofun⟩⟩
  simp only [reduceCtorEq, true_and, false_or]
  intro hn
  cases hg : s.admitsGlobals with
  | true => exact h.global_of_admits hg
  | false => exact absurd (h.inFunction_iff.1 (ha hg)) hn

theorem legal_ordinary (h : s.Within around) (hf : s.scopes.inFunction) :
    Standing.Legal s.stdlib ⟨around, .ordinary⟩ :=
  ⟨nofun, by simp, fun _ => h.inFunction_iff.1 hf, fun _ => ⟨nofun, nofun, nofun⟩⟩

theorem legal_finish (around : List ScopeKind) (stdlib : Bool) :
    Standing.Legal stdlib ⟨around, .finish⟩ :=
  ⟨nofun, by simp, nofun, fun _ => ⟨nofun, nofun, nofun⟩⟩

end Session.Within

/-! ## Statements that are read -/

namespace Step

variable {s t : Session} {around : List ScopeKind} {tokens : List Token}

/-- In the second pass the end of standard-library mode is a statement, or nothing has happened. -/
theorem evaluate_finishStatement {modifiers : List Token} {result : Option Stmt}
    (hs : s.isSkimming = false) (h : finishStatement tokens modifiers s = (.ok result, t)) :
    result = none ∧ t = s ∨
      ∃ keyword, result = some (.stdlibFinish keyword) ∧ t = { s with stdlib := false } := by
  simp [finishStatement, and_assoc] at h
  obtain ⟨-, keyword, -, ⟨-, rfl, rfl⟩ | ⟨-, ⟨hk, -⟩ | ⟨-, rfl, rfl⟩⟩⟩ := h
  · exact .inl ⟨rfl, rfl⟩
  · exact absurd (hs.symm.trans hk) Bool.false_ne_true
  · exact .inr ⟨keyword, rfl, rfl⟩

/-- A line that is read stands where it may, and it alone can end standard-library mode. -/
theorem legalIn_closed {result : Option Stmt} (hs : s.isSkimming = false) (hw : s.Within around)
    (h : closed tokens s = (.ok result, t)) :
    let standings := result.toList.map fun stmt => (⟨around, stmt.rank⟩ : Standing)
    Standing.LegalIn s.stdlib standings ∧ t.stdlib = standings.foldl Standing.leaves s.stdlib := by
  have hr := reader_closed tokens
  generalize closed tokens = step at h hr
  -- All but one of the statements leave the mode alone.
  have kept {step : Step (Option Stmt)} (hstep : step.Secludes)
      (h : step s = (.ok result, t)) : t.stdlib = s.stdlib := by
    have hk := (hstep s trivial).stdlib_eq
    rwa [h] at hk
  have stays {rank : Stmt.Rank} (hl : Standing.Legal s.stdlib ⟨around, rank⟩) (hn : rank ≠ .finish)
      (hk : t.stdlib = s.stdlib) : Standing.LegalIn s.stdlib [⟨around, rank⟩] ∧
        t.stdlib = [⟨around, rank⟩].foldl Standing.leaves s.stdlib := by
    refine ⟨⟨hl, trivial⟩, ?_⟩
    simp [Standing.leaves, hn, hk]
  cases hr with
  | nothing =>
    obtain ⟨rfl, rfl⟩ := Fallible.pure_eq_ok.1 h
    exact ⟨trivial, rfl⟩
  | native =>
    obtain ⟨signature, binding, -, ha, rfl, rfl, -⟩ := evaluate_nativeStatement hs h
    exact stays (hw.legal_global ha (.inr rfl)) nofun rfl
  | returning =>
    obtain ⟨hf, keyword, value, scopes, rfl, rfl, -⟩ := evaluate_returnStatement hs h
    exact stays (hw.legal_ordinary hf) nofun rfl
  | finish =>
    obtain ⟨rfl, rfl⟩ | ⟨keyword, rfl, rfl⟩ := evaluate_finishStatement hs h
    · exact ⟨trivial, rfl⟩
    · refine ⟨⟨Session.Within.legal_finish around _, trivial⟩, ?_⟩
      simp [Standing.leaves, Stmt.rank]
  | action tokens modifiers =>
    have hk := kept ((secludes_actionStatement tokens modifiers).map _) h
    obtain ⟨action, ha, rfl⟩ := Fallible.map_eq_ok.1 h
    have hf := (evaluate_actionStatement hs ha).1
    cases action with
    | none => exact ⟨trivial, hk⟩
    | some action => exact stays (hw.legal_ordinary hf) nofun hk
  | declaration first rest modifiers =>
    have hk := kept ((secludes_variableStatement (first :: rest) modifiers).map _) h
    obtain ⟨declaration, hv, rfl⟩ := Fallible.map_eq_ok.1 h
    obtain ⟨form, -, hf, -⟩ := evaluate_variableStatement hs hv
    rcases declaration with _ | ⟨header, _ | value⟩
    · exact ⟨trivial, hk⟩
    · exact stays (hw.legal_variable hf) nofun hk
    · exact stays (hw.legal_variable hf) nofun hk
  | fails hf => exact absurd h (hf _ _ _)

/-- The head of a block that is read stands where it may. -/
theorem legal_head {kind : ScopeKind} {step : Step (Option Stmt)} {result : Option Stmt}
    (hs : s.isSkimming = false) (hw : s.Within around) (hr : HeadReader kind step)
    (h : step s = (.ok result, t)) :
    ∀ stmt ∈ result, Standing.Legal s.stdlib ⟨around, stmt.rank⟩ ∧ stmt.rank ≠ .finish := by
  cases hr with
  | module =>
    obtain ⟨identifier, -, hk, rfl, -⟩ := moduleStatement_ok h
    rw [hs]
    rintro _ ⟨⟩
    exact ⟨hw.legal_module hk, nofun⟩
  | function =>
    obtain ⟨signature, definition, -, ha, -, rfl, -⟩ := evaluate_functionStatement hs h
    rintro _ ⟨⟩
    exact ⟨hw.legal_global ha (.inl rfl), nofun⟩
  | ifElse =>
    obtain ⟨head, hi, rfl⟩ := Fallible.map_eq_ok.1 h
    obtain ⟨hf, keyword, value, scopes, rfl, -⟩ := evaluate_ifStatement hs hi
    rintro _ ⟨⟩
    exact ⟨hw.legal_ordinary hf, nofun⟩
  | whileLoop =>
    obtain ⟨hf, keyword, value, scopes, rfl, -⟩ := evaluate_whileStatement hs h
    rintro _ ⟨⟩
    exact ⟨hw.legal_ordinary hf, nofun⟩
  | forLoop =>
    obtain ⟨hf, keyword, init, test, step, hl⟩ := forStatement_ok h
    obtain ⟨_, _, _, _, _, _, _, -, -, -, -, -, rfl, -⟩ := evaluate_loopStatement (by exact hs) hl
    rintro _ ⟨⟩
    exact ⟨hw.legal_ordinary hf, nofun⟩
  | fails hf => exact absurd h (hf _ _ _)

/-- What a block belongs to stands where it may. -/
theorem legalIn_owner {chain : Chain} {result : Option Owner} (hs : s.isSkimming = false)
    (hw : s.Within around) (h : owner chain tokens s = (.ok result, t)) :
    ∀ owner ∈ result, Standing.LegalIn s.stdlib (owner.standings around) ∧
      (owner.standings around).foldl Standing.leaves s.stdlib = s.stdlib := by
  obtain ⟨-, _, _, hb⟩ | ⟨step, read, hr, hread, rfl⟩ := owner_eq_ok rfl h
  · obtain ⟨-, next, -, ⟨-, -, rfl⟩ | ⟨-, head, -, rfl⟩⟩ := elseOwner_ok hb
    · rintro _ ⟨⟩
      exact ⟨trivial, rfl⟩
    · intro owner ho
      obtain ⟨head, -, rfl⟩ := Option.map_eq_some_iff.1 ho
      exact ⟨trivial, rfl⟩
  · intro owner ho
    obtain ⟨stmt, hm, rfl⟩ := Option.map_eq_some_iff.1 ho
    obtain ⟨hl, hn⟩ := legal_head hs hw hr hread stmt hm
    refine ⟨⟨hl, trivial⟩, ?_⟩
    simp [Owner.standings, Standing.leaves, hn]

end Step

/-! ## Inside of a block -/

/-- What a block of a module belongs to is a module. -/
theorem Owner.eq_module_of_kind {owner : Owner} (hk : owner.kind = .module)
    (hf : ∀ kind, owner ≠ .failed kind) :
    ∃ identifier body, owner = .statement (.module identifier body) := by
  unfold kind at hk
  split at hk
  next stmt => cases stmt <;> first | exact ⟨_, _, rfl⟩ | cases hk
  next => cases hk
  next => cases hk
  next => exact absurd rfl (hf _)

/-- Inside of a block there is the scope of its kind, and then those around it. -/
theorem Session.Within.inside {s t : Session} {around : List ScopeKind} {chain : Chain}
    {tokens : List Token} {owner : Owner} (hs : s.isSkimming = false) (hw : s.Within around)
    (h : Step.owner chain tokens s = (.ok (some owner), t)) (hf : ∀ kind, owner ≠ .failed kind) :
    (t.inside s.scopes (Token.blockKind tokens)).Within (Token.blockKind tokens :: around) := by
  obtain ⟨fresh, hframe, -⟩ := Step.frame_inside h
  have hbare : (t.inside s.scopes (Token.blockKind tokens)).scopes.bare = _ :=
    congrArg Frame.scopes hframe
  refine ⟨?_, Step.head?_inside h, ?_, ?_, fun hm => ?_⟩
  · have ho := (Step.commits_owner chain tokens).moved s
    rw [h] at ho
    have hkinds := Reading.blockKinds_insideBlock
      (fun hc => Step.block?_ne_loopHeader hc rfl) ho
    rw [ScopeStack.blockKinds, ScopeStack.blockKinds, Reading.kinds_frame] at hkinds
    rw [← hw.blockKinds_eq, ScopeStack.blockKinds, ScopeStack.blockKinds]
    refine Eq.trans (congrArg _ ?_) hkinds
    change (ScopeStack.insideBlock _ _ _).kinds = _
    rw [← ScopeStack.kinds_insideBlock_bare, ← s.scopes.size_bare]
    rfl
  · exact (congrArg (fun scopes => scopes.outermost.kind) hbare).trans hw.outermost_eq
  · rw [List.mem_cons, not_or]
    exact ⟨(Token.blockKind_ne_program tokens).symm, hw.nested⟩
  · -- A module stands at the top level or in a module, and around that one there are modules.
    have hkind : owner.kind = .module :=
      (Step.definable_of_owner hs h owner rfl).1.trans (Option.some.inj hm)
    obtain ⟨hlegal, -⟩ := Step.legalIn_owner hs hw h owner rfl
    obtain ⟨identifier, body, rfl⟩ := Owner.eq_module_of_kind hkind hf
    refine List.forall_mem_cons.2 ⟨Option.some.inj hm, ?_⟩
    obtain rfl | ha := hlegal.1.modules rfl
    · simp
    · exact hw.modules ha

/-! ## All statements of a program -/

/-- What is written stands where it may, one statement after the other. -/
theorem Item.Writes.legalIn {s t : Session} {items : List Item} {written : List Written}
    {around : List ScopeKind} (h : Writes s items t written) (hw : s.Within around) :
    Standing.LegalIn s.stdlib (Written.standingsIn around written) ∧
      t.stdlib = (Written.standingsIn around written).foldl Standing.leaves s.stdlib := by
  induction h generalizing around with
  | nil => exact ⟨trivial, rfl⟩
  | @line s t u items words stop _ _ result more hs hr hf _ ih =>
    obtain ⟨hlegal, hstdlib⟩ := Step.legalIn_closed hs hw hr
    obtain ⟨hl, hu⟩ := ih (hw.of_bare (congrArg Frame.scopes hf))
    have hone : Written.standingsIn around (result.toList.map Written.line) =
        result.toList.map fun stmt => (⟨around, stmt.rank⟩ : Standing) := by
      cases result <;> rfl
    rw [Written.standingsIn_append, hone, Standing.legalIn_append, List.foldl_append, ← hstdlib]
    exact ⟨⟨hlegal, hl⟩, hu⟩
  | @block s t u v inner items head opening _ _ _ _ chain owner scopes body more hs hr hspelled _ hf
      _ ihi ih =>
    have hfailed : ∀ kind, owner ≠ .failed kind := by
      rintro kind rfl
      cases hspelled
    have hkind : owner.kind = Token.openedKind head opening :=
      (Step.definable_of_owner hs hr owner rfl).1
    have hstdlib : t.stdlib = s.stdlib := by
      have hk := (Step.secludes_owner chain (head ++ [opening]) s trivial).stdlib_eq
      rwa [hr] at hk
    obtain ⟨hlegal, hmode⟩ := Step.legalIn_owner hs hw hr owner rfl
    obtain ⟨hinside, hleft⟩ := ihi (hw.inside hs hr hfailed)
    obtain ⟨hl, hv⟩ := ih (hw.of_bare (congrArg Frame.scopes hf))
    have hu : u.stdlib = (Written.standingsIn (Token.openedKind head opening :: around) body).foldl
        Standing.leaves s.stdlib := hstdlib ▸ hleft
    rw [Written.standingsIn, Written.standings, hkind, List.append_assoc, Standing.legalIn_append,
      Standing.legalIn_append, List.foldl_append, List.foldl_append, hmode, ← hu]
    exact ⟨⟨hlegal, hstdlib ▸ hinside, hl⟩, hv⟩

/-- In a program that is parsed without an error every statement stands where it may.
Standard-library mode is on as long as no statement before, however deep in a block, has ended
it. -/
theorem legal_of_parse {settings : Settings} {tokens : List Token} {program : List Stmt}
    (hb : settings.maxErrors ≠ some 0) (h : parse settings tokens = (some program, [])) :
    ∀ before standing after, Stmt.standingsIn [] program = before ++ standing :: after →
      standing.Legal (settings.stdlib && before.all (·.rank ≠ .finish)) := by
  obtain ⟨items, t, -, hwrites⟩ := exists_writes_of_parse hb h
  obtain ⟨hlegal, -⟩ := hwrites.legalIn (.start _ _)
  intro before standing after hsplit
  rw [Stmt.standingsIn_writtenAll, hsplit, Standing.legalIn_append, Standing.foldl_leaves] at hlegal
  obtain ⟨-, -, -, hsettings⟩ := Session.skimmed_of_clean (evaluated_of_parse hb h).1
  have hstdlib : (Reading.start (Session.skim settings tokens) .evaluate).session.stdlib =
      settings.stdlib := congrArg Settings.stdlib hsettings
  rw [hstdlib] at hlegal
  exact hlegal.2.1

/-- The words of `fn f { return; } STANDARDLIB_FINISH_CODE; module m { fn g { } }`. -/
def parting : List Token :=
  [.synthetic (.keyword .fnWord) "fn", .synthetic .identifier "f", .synthetic .openCurly "\x7b",
    .synthetic (.keyword .returnWord) "return", .synthetic .semicolon ";",
    .synthetic .closeCurly "\x7d", .synthetic (.keyword .finishWord) "STANDARDLIB_FINISH_CODE",
    .synthetic .semicolon ";", .synthetic (.keyword .moduleWord) "module",
    .synthetic .identifier "m", .synthetic .openCurly "\x7b",
    .synthetic (.keyword .fnWord) "fn", .synthetic .identifier "g", .synthetic .openCurly "\x7b",
    .synthetic .closeCurly "\x7d", .synthetic .closeCurly "\x7d"]

/-- The statements of that program. -/
def partingStatements : List Stmt :=
  [.function ⟨[], .synthetic .identifier "f", voidToken, []⟩
      [.returning (.synthetic (.keyword .returnWord) "return") none],
    .stdlibFinish (.synthetic (.keyword .finishWord) "STANDARDLIB_FINISH_CODE"),
    .module (.synthetic .identifier "m")
      [.function ⟨[], .synthetic .identifier "g", voidToken, []⟩ []]]

/-- In the standard library `f` stands at the top level, before its end; `g` stands in a module. -/
theorem legal_of_parse_parting :
    parse { stdlib := true } parting = (some partingStatements, []) ∧
      Stmt.standingsIn [] partingStatements = [⟨[], .function⟩, ⟨[.function], .ordinary⟩,
        ⟨[], .finish⟩, ⟨[], .module⟩, ⟨[.module], .function⟩] ∧
      Standing.Legal true ⟨[], .function⟩ ∧ Standing.Legal true ⟨[.function], .ordinary⟩ ∧
      Standing.Legal false ⟨[.module], .function⟩ := by
  have hstatements : (parse { stdlib := true } parting).1 = some partingStatements := by
    with_unfolding_all rfl
  have herrors : (parse { stdlib := true } parting).2 = [] := by with_unfolding_all rfl
  have hparse : parse { stdlib := true } parting = (some partingStatements, []) :=
    Prod.ext hstatements herrors
  have hlegal := legal_of_parse (by decide) hparse
  exact ⟨hparse, rfl, hlegal [] _ _ rfl, hlegal [⟨[], .function⟩] _ _ rfl,
    hlegal [⟨[], .function⟩, ⟨[.function], .ordinary⟩, ⟨[], .finish⟩, ⟨[], .module⟩] _ _ rfl⟩

end MuLang
