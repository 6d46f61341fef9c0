import MuLang.Proofs.Course
import MuLang.Proofs.Seclusion

/-!
# Items outside of functions

Outside of functions a block is a module or a function. Each item stands for itself there: no branch
follows another one, no local is declared, and after an item the scopes are those before it. Only
what the items declare lasts, and whether one of them has ended standard-library mode.
-/
namespace MuLang

namespace Item

mutual

/-- Whether an item ends standard-library mode. -/
def finishes : Item → Bool
  | .line words stop _ _ => Token.startsWith (.keyword .finishWord) (words ++ [stop])
  | .block _ _ body _ _ _ _ => finishesIn body

def finishesIn : List Item → Bool
  | [] => false
  | item :: rest => item.finishes || finishesIn rest

end

end Item

namespace Step

variable {s t : Session}

/-- A line that is read ends standard-library mode if it says so. It declares no local outside of
functions, and nothing else inside of them. -/
theorem secludes_line {words : List Token} {stop : Token} {result : Option Stmt}
    (hs : stop.kind = .semicolon) (h : closed (words ++ [stop]) s = (.ok result, t)) :
    (s.scopes.Tidy → t.scopes.Tidy) ∧
      (s.scopes.Inner → t.table = s.table ∧ t.deferred = s.deferred) ∧
      t.stdlib = (s.stdlib && !Token.startsWith (.keyword .finishWord) (words ++ [stop])) := by
  cases hf : Token.startsWith (.keyword .finishWord) (words ++ [stop]) with
  | false =>
    have hsecludes := (secludes_closed (words ++ [stop])).resolve_right (by
      rintro ⟨first, rest, hr, hk, -⟩
      simp [Token.startsWith, hr, hk] at hf) s trivial
    rw [h] at hsecludes
    refine ⟨hsecludes.tidy, fun hi => (hsecludes.inner hi).2, ?_⟩
    rw [hsecludes.stdlib_eq, Bool.not_false, Bool.and_true]
  | true =>
    -- The `;` follows the word, so the statement is not cut short.
    have hstop : stop.kind.isModifier = false := by
      rw [hs]
      rfl
    obtain ⟨-, ha⟩ | ⟨_, first, more, -, -, ha⟩ := Token.modifiers_cases hstop words
    · simp [Token.startsWith, ha, hs] at hf
    · have hk : first.kind = .keyword .finishWord := by simpa [Token.startsWith, ha] using hf
      simp only [closed, statement, Token.block?, ha, List.head?_cons, Option.bind_some, hk,
        Kind.block?] at h
      obtain ⟨whole, hw, rfl, -⟩ := finishStatement_ok h
      have hwhole : whole = true := by
        unfold Token.expectEnd at hw
        cases more <;> simp_all
      subst hwhole
      exact ⟨id, fun _ => ⟨rfl, rfl⟩, (Bool.and_false _).symm⟩

end Step

namespace Item.Leads

variable {s t : Session} {body after : Body} {items : List Item}

/-- Standard-library mode goes on as long as no item has ended it. -/
theorem stdlib_eq (h : Leads s body items t after) :
    t.stdlib = (s.stdlib && !finishesIn items) := by
  induction h with
  | nil => exact (Bool.and_true _).symm
  | @line _ _ _ _ _ _ words stop whole stops _ hr _ ih =>
    obtain ⟨-, -, hline⟩ := Step.secludes_line stops hr
    rw [ih, hline, finishesIn, finishes, Bool.not_or, Bool.and_assoc]
  | @block s t _ _ body _ _ _ _ head opening _ _ _ _ _ _ hr _ _ _ ihi ih =>
    have hhead := (Step.secludes_owner body.chain (head ++ [opening]) s trivial).stdlib_eq
    rw [hr] at hhead
    have hinside : (t.inside s.scopes (Token.openedKind head opening)).stdlib = s.stdlib := hhead
    rw [hinside] at ihi
    rw [ih, finishesIn, finishes, Bool.not_or, ← Bool.and_assoc, ← ihi]

/-- No local is left outside of functions. -/
theorem tidy (h : Leads s body items t after) (ht : s.scopes.Tidy) : t.scopes.Tidy := by
  induction h with
  | nil => exact ht
  | line hr _ ih => exact ih ((Step.secludes_line ‹_› hr).1 ht)
  | @block s t _ _ body _ _ _ _ head opening _ _ _ _ _ scopes hr _ hpop _ ihi ih =>
    have hhead := (Step.secludes_owner body.chain (head ++ [opening]) s trivial).tidy ht
    rw [hr] at hhead
    exact ih (ScopeStack.Tidy.popBlock? (ihi (hhead.insideBlock _ _)) hpop)

end Item.Leads

/-- No scope is added to a block whose head has entered it. -/
theorem ScopeStack.insideBlock_enter (scopes : ScopeStack) (scope : Scope) :
    (scopes.enter scope).insideBlock scopes.size scope.kind = scopes.enter scope := by
  rw [insideBlock, if_neg]
  rintro (hs | hk)
  · rw [size_enter] at hs
    omega
  · exact hk rfl

theorem Session.inside_eq {s : Session} {scopes : ScopeStack} {scope : Scope}
    (h : s.scopes = scopes.enter scope) : s.inside scopes scope.kind = s := by
  rw [inside, h, ScopeStack.insideBlock_enter, ← h]

/-- Inside of a block the innermost scope is its own. -/
theorem Session.currentKind_inside (s : Session) (before : ScopeStack) (kind : ScopeKind) :
    (s.inside before kind).scopes.currentKind = kind := by
  simp only [inside, ScopeStack.insideBlock]
  split
  · rfl
  next hc => exact Decidable.not_not.1 fun hk => hc (.inr hk)

/-- Inside of functions items declare nothing that lasts. -/
theorem Item.Leads.inner {s t : Session} {body after : Body} {items : List Item}
    (h : Leads s body items t after) (hi : s.scopes.Inner)
    (hk : s.scopes.kinds.head? ≠ some .loopHeader) :
    t.table = s.table ∧ t.deferred = s.deferred := by
  induction h with
  | nil => exact ⟨rfl, rfl⟩
  | @line s t u body after items words stop whole stops result hr hrest ih =>
    have hone : Leads s body [.line words stop whole stops] t _ := .line hr .nil
    have hf := hone.frame_eq hk
    have hkinds : t.scopes.kinds = s.scopes.kinds := by
      rw [← Reading.kinds_frame, hf, Reading.kinds_frame]
    obtain ⟨htable, hdeferred⟩ := ih (hi.congr (congrArg Frame.scopes hf)) (hkinds ▸ hk)
    obtain ⟨-, hline, -⟩ := Step.secludes_line stops hr
    exact ⟨htable.trans (hline hi).1, hdeferred.trans (hline hi).2⟩
  | @block s t u v body _ _ _ _ head opening closing whole opens closes owner scopes hr hinner hpop
      hrest ihi ih =>
    have hone : Leads s body [.block head opening _ closing whole opens closes] _ _ :=
      .block hr hinner hpop .nil
    have hf := hone.frame_eq hk
    have hkinds : scopes.kinds = s.scopes.kinds := by
      rw [← Reading.kinds_frame s, ← hf, Reading.kinds_frame]
    have hhead := (Step.secludes_owner body.chain (head ++ [opening]) s trivial).inner hi
    rw [hr] at hhead
    have hinside : (t.inside s.scopes (Token.openedKind head opening)).scopes.Inner := by
      rw [ScopeStack.Inner, Session.currentKind_inside]
      refine ⟨Token.blockKind_ne_program _, fun hm => ?_⟩
      exact (Step.currentKind_of_module hr hm).elim hi.1 hi.2
    obtain ⟨htable, hdeferred⟩ := ihi hinside (Step.head?_inside hr)
    obtain ⟨hlast, hend⟩ := ih (hi.congr (congrArg Frame.scopes hf)) (hkinds ▸ hk)
    exact ⟨hlast.trans (htable.trans hhead.2.1), hend.trans (hdeferred.trans hhead.2.2)⟩

/-! ## What stands outside of functions -/

/-- A session stands between two items outside of functions. -/
structure Session.Outside (session : Session) : Prop where
  inFunction_eq : session.scopes.inFunction = false
  tidy : session.scopes.Tidy
  head?_ne : session.scopes.kinds.head? ≠ some .loopHeader

namespace Step

variable {s t : Session} {tokens modifiers : List Token}

theorem inFunction_of_if {result : Option (Token × Expr)}
    (h : ifStatement tokens modifiers s = (.ok result, t)) : s.scopes.inFunction := by
  simp only [ifStatement, Fallible.bind_eq_ok, rejectModifiers_eq_ok, Fallible.ofExcept_eq_ok,
    requireFunction_eq_ok] at h
  obtain ⟨-, _, ⟨-, rfl⟩, -, _, ⟨-, rfl⟩, -, _, ⟨hf, -⟩, -⟩ := h
  exact hf

theorem inFunction_of_while {result : Option Stmt}
    (h : whileStatement tokens modifiers s = (.ok result, t)) : s.scopes.inFunction := by
  simp only [whileStatement, Fallible.bind_eq_ok, rejectModifiers_eq_ok, Fallible.ofExcept_eq_ok,
    requireFunction_eq_ok] at h
  obtain ⟨-, _, ⟨-, rfl⟩, -, _, ⟨-, rfl⟩, -, _, ⟨hf, -⟩, -⟩ := h
  exact hf

theorem inFunction_of_return {result : Option Stmt}
    (h : returnStatement tokens modifiers s = (.ok result, t)) : s.scopes.inFunction := by
  simp only [returnStatement, Fallible.bind_eq_ok, rejectModifiers_eq_ok, Fallible.ofExcept_eq_ok,
    requireFunction_eq_ok] at h
  obtain ⟨-, _, ⟨-, rfl⟩, -, _, ⟨-, rfl⟩, -, _, ⟨hf, -⟩, -⟩ := h
  exact hf

theorem inFunction_of_action {result : Option Action}
    (h : actionStatement tokens modifiers s = (.ok result, t)) : s.scopes.inFunction := by
  simp only [actionStatement, Fallible.bind_eq_ok, rejectModifiers_eq_ok, Fallible.ofExcept_eq_ok,
    requireFunction_eq_ok] at h
  obtain ⟨-, _, ⟨-, rfl⟩, -, _, ⟨-, rfl⟩, -, _, ⟨hf, -⟩, -⟩ := h
  exact hf

/-- Outside of functions the head of a block is that of a module or of a function. -/
theorem owner_outside {owner : Option Owner} (hf : s.scopes.inFunction = false)
    (h : Step.owner .closed tokens s = (.ok owner, t)) :
    ∃ result, owner = result.map .statement ∧
      ((Token.blockKind tokens = .module ∧
          moduleStatement (Token.afterModifiers tokens) (Token.leadingModifiers tokens) s =
            (.ok result, t)) ∨
        (Token.blockKind tokens = .function ∧
          functionStatement (Token.afterModifiers tokens) (Token.leadingModifiers tokens) s =
            (.ok result, t))) := by
  by_cases hm : Token.blockKind tokens = .module
  · rw [(owner_of_blockKind .closed tokens).1 hm] at h
    obtain ⟨result, hr, rfl⟩ := Fallible.map_eq_ok.1 h
    exact ⟨result, rfl, .inl ⟨hm, hr⟩⟩
  by_cases hn : Token.blockKind tokens = .function
  · rw [(owner_of_blockKind .closed tokens).2 hn] at h
    obtain ⟨result, hr, rfl⟩ := Fallible.map_eq_ok.1 h
    exact ⟨result, rfl, .inr ⟨hn, hr⟩⟩
  -- Any other block stands in a function.
  have outside {P : Prop} (hi : s.scopes.inFunction) : P := by
    rw [hf] at hi
    cases hi
  generalize hk : Token.blockKind tokens = kind at hm hn
  obtain ⟨-, _, _, hb⟩ | ⟨step, result, hr, hread, -⟩ := owner_eq_ok hk h
  · exact absurd rfl (elseOwner_ok hb).1
  · cases hr with
    | module => exact absurd rfl hm
    | function => exact absurd rfl hn
    | ifElse =>
      obtain ⟨head, hi, -⟩ := Fallible.map_eq_ok.1 hread
      exact outside (inFunction_of_if hi)
    | whileLoop => exact outside (inFunction_of_while hread)
    | forLoop => exact outside (forStatement_ok hread).1
    | fails hf => exact absurd hread (hf _ _ _)

end Step

/-- Items outside of functions lead from a session to a later one, and say some statements. -/
inductive Item.Declares : Session → List Item → Session → List Stmt → Prop
  | nil {s : Session} : Declares s [] s []
  | line {s t u : Session} {items : List Item} {words : List Token} {stop : Token}
      {whole : Token.Unbroken words} {stops : stop.kind = .semicolon} {result : Option Stmt}
      {more : List Stmt} : Step.closed (words ++ [stop]) s = (.ok result, t) →
      Declares t items u more → Declares s (.line words stop whole stops :: items) u
        (result.toList ++ more)
  | module {s t u v : Session} {inner items : List Item} {head : List Token}
      {opening closing : Token} {whole : Token.Unbroken head} {opens : opening.kind = .openCurly}
      {closes : closing.kind = .closeCurly} {result : Option Stmt} {inside more : List Stmt} :
      Token.openedKind head opening = .module →
      Step.moduleStatement (Token.afterModifiers (head ++ [opening]))
        (Token.leadingModifiers (head ++ [opening])) s = (.ok result, t) →
      Declares t inner u inside → Declares { u with scopes := s.scopes } items v more →
      Declares s (.block head opening inner closing whole opens closes :: items) v
        (result.toList.map (·.withBody inside) ++ more)
  | function {s t u v : Session} {inner items : List Item} {head : List Token}
      {opening closing : Token} {whole : Token.Unbroken head} {opens : opening.kind = .openCurly}
      {closes : closing.kind = .closeCurly} {result : Option Stmt} {inside : Body}
      {more : List Stmt} : Token.openedKind head opening = .function →
      Step.functionStatement (Token.afterModifiers (head ++ [opening]))
        (Token.leadingModifiers (head ++ [opening])) s = (.ok result, t) →
      Leads (t.inside s.scopes .function) {} inner u inside →
      u.scopes.popBlock? = some s.scopes → Declares { u with scopes := s.scopes } items v more →
      Declares s (.block head opening inner closing whole opens closes :: items) v
        (result.toList.map (·.withBody inside.statements) ++ more)

namespace Session.Outside

variable {s t : Session}

theorem start (session : Session) (pass : Pass) : (Reading.start session pass).session.Outside :=
  ⟨rfl, ⟨trivial, rfl⟩, by simp [Reading.start, ScopeStack.initial, ScopeStack.kinds]⟩

/-- Between items that stand outside of functions the scopes stay as they are. -/
theorem scopes_eq {body after : Body} {items : List Item} (h : s.Outside)
    (hl : Item.Leads s body items t after) : t.scopes = s.scopes := by
  have hbare : t.scopes.bare = s.scopes.bare := congrArg Frame.scopes (hl.frame_eq h.head?_ne)
  exact (h.tidy.eq_of_bare_eq (hl.tidy h.tidy) h.inFunction_eq hbare.symm).symm

theorem of_scopes (h : s.Outside) (hs : t.scopes = s.scopes) : t.Outside :=
  ⟨hs ▸ h.inFunction_eq, hs ▸ h.tidy, hs ▸ h.head?_ne⟩

/-- Inside of a module it is outside of functions as well. -/
theorem inside (h : s.Outside) {tokens modifiers : List Token} {result : Option Stmt}
    (hr : Step.moduleStatement tokens modifiers s = (.ok result, t)) :
    t.Outside ∧ t.scopes.currentKind = .module ∧ t.inside s.scopes .module = t ∧
      t.scopes.popBlock? = some s.scopes := by
  obtain ⟨identifier, -, -, -, rfl⟩ := Step.moduleStatement_ok hr
  have hf : (s.scopes.pushIn .module (s.scopes.currentModule ++ [identifier.text])).inFunction =
      false := by
    simp only [ScopeStack.pushIn, ScopeStack.inFunction, ScopeStack.enter, List.any_cons]
    exact h.inFunction_eq
  refine ⟨⟨hf, h.tidy.enter rfl, ?_⟩, rfl, ?_, ScopeStack.popBlock?_enter _ h.head?_ne _⟩
  · simp [ScopeStack.pushIn, ScopeStack.kinds, ScopeStack.enter]
  · exact @Session.inside_eq _ s.scopes ⟨.module, _, [], none⟩ rfl

end Session.Outside

theorem Step.function_of_ok {s t : Session} {tokens modifiers : List Token} {result : Option Stmt}
    (h : functionStatement tokens modifiers s = (.ok result, t)) :
    ∀ stmt ∈ result, ∃ header, stmt = .function header [] := by
  cases hs : s.isSkimming with
  | false =>
    obtain ⟨signature, definition, -, -, -, rfl, -⟩ := evaluate_functionStatement hs h
    rintro _ ⟨⟩
    exact ⟨_, rfl⟩
  | true =>
    simp [functionStatement, hs, and_assoc] at h
    obtain ⟨-, -, -, -, -, -, -, -, rfl⟩ := h
    simp

/-- A block that is no `if` is added to the block around it. -/
theorem Body.close_eq {body : Body} {result : Option Stmt} {kind : ScopeKind}
    (hk : kind ≠ .ifBlock) (hr : ∀ stmt ∈ result, stmt.isIf = false) (inside : List Stmt) :
    body.close ((result.map .statement).getD (.failed kind)) inside =
      ⟨body.statements ++ result.toList.map (·.withBody inside), .closed⟩ := by
  cases result with
  | none => simp [close, hk]
  | some stmt => simp [close, hr stmt rfl]

namespace Item

variable {s t : Session} {body after : Body} {items : List Item} {new : List Stmt}

/-- Outside of functions items that lead somewhere stand for themselves. -/
theorem Leads.declares (h : Leads s body items t after) (ho : s.Outside)
    (hc : body.chain = .closed) :
    ∃ new, Declares s items t new ∧ after = ⟨body.statements ++ new, .closed⟩ := by
  induction h with
  | nil => exact ⟨[], .nil, by rw [List.append_nil, ← hc]⟩
  | @line s t u body after items words stop whole stops result hr hrest ih =>
    have hone : Leads s body [.line words stop whole stops] t _ := .line hr .nil
    obtain ⟨new, hnew, rfl⟩ := ih (ho.of_scopes (ho.scopes_eq hone)) rfl
    exact ⟨_, .line hr hnew, by rw [Body.add, List.append_assoc]⟩
  | @block s t u v body inside after inner items head opening closing whole opens closes owner
      scopes hr hinner hpop hrest ihi ih =>
    have hone : Leads s body [.block head opening inner closing whole opens closes] _ _ :=
      .block hr hinner hpop .nil
    obtain rfl : scopes = s.scopes := ho.scopes_eq hone
    have hnext : Session.Outside { u with scopes := s.scopes } := ho.of_scopes rfl
    rw [hc] at hr
    obtain ⟨result, rfl, ⟨hk, hread⟩ | ⟨hk, hread⟩⟩ := Step.owner_outside ho.inFunction_eq hr
    · have hkind : Token.openedKind head opening = .module := hk
      have hnoif : ∀ stmt ∈ result, stmt.isIf = false := by
        obtain ⟨identifier, -, -, rfl, -⟩ := Step.moduleStatement_ok hread
        split <;> simp [Stmt.isIf]
      obtain ⟨hto, -, hti, -⟩ := ho.inside hread
      rw [hkind, hti] at hinner ihi
      obtain ⟨inside, hdeclares, rfl⟩ := ihi hto rfl
      have hclose := @Body.close_eq body result (Token.openedKind head opening) (by simp [hkind])
        hnoif inside
      dsimp only [List.nil_append] at ih
      rw [hclose] at ih
      obtain ⟨new, hnew, rfl⟩ := ih hnext rfl
      exact ⟨_, .module hk hread hdeclares hnew, by rw [List.append_assoc]⟩
    · have hkind : Token.openedKind head opening = .function := hk
      have hnoif : ∀ stmt ∈ result, stmt.isIf = false := fun stmt hm => by
        obtain ⟨header, rfl⟩ := Step.function_of_ok hread stmt hm
        rfl
      have hclose := @Body.close_eq body result (Token.openedKind head opening) (by simp [hkind])
        hnoif inside.statements
      rw [hclose] at ih
      obtain ⟨new, hnew, rfl⟩ := ih hnext rfl
      exact ⟨_, .function hk hread (hkind ▸ hinner) hpop hnew, by rw [List.append_assoc]⟩

theorem Declares.of_line {words : List Token} {stop : Token} {result : Option Stmt}
    (whole : Token.Unbroken words) (stops : stop.kind = .semicolon)
    (h : Step.closed (words ++ [stop]) s = (.ok result, t)) :
    Declares s [.line words stop whole stops] t result.toList := by
  have hone : Declares s [.line words stop whole stops] t (result.toList ++ []) := .line h .nil
  rwa [List.append_nil] at hone

/-- What they say is added to the statements before them, whatever these are. -/
theorem Declares.leads (h : Declares s items t new) (ho : s.Outside) (statements : List Stmt) :
    Leads s ⟨statements, .closed⟩ items t ⟨statements ++ new, .closed⟩ := by
  induction h generalizing statements with
  | nil =>
    rw [List.append_nil]
    exact .nil
  | @line s t u items words stop whole stops result more hr _ ih =>
    have hone : Leads s ⟨statements, .closed⟩ [.line words stop whole stops] t _ := .line hr .nil
    rw [← List.append_assoc]
    exact .line hr (ih (ho.of_scopes (ho.scopes_eq hone)) _)
  | @module s t u v inner items head opening closing whole opens closes result inside more hk hr _ _
      ihi ih =>
    have hnoif : ∀ stmt ∈ result, stmt.isIf = false := by
      obtain ⟨identifier, -, -, rfl, -⟩ := Step.moduleStatement_ok hr
      split <;> simp [Stmt.isIf]
    have hclose := @Body.close_eq ⟨statements, .closed⟩ result (Token.openedKind head opening)
      (by simp [hk]) hnoif inside
    have howner : Step.owner .closed (head ++ [opening]) s =
        (.ok (result.map .statement), t) := by
      rw [(Step.owner_of_blockKind _ _).1 hk]
      exact Fallible.map_eq_ok.2 ⟨result, hr, rfl⟩
    obtain ⟨hto, -, hti, hpop⟩ := ho.inside hr
    have hinner := ihi hto []
    rw [← hto.scopes_eq hinner] at hpop
    rw [← List.append_assoc]
    have hrest := ih (ho.of_scopes rfl) (statements ++ result.toList.map (·.withBody inside))
    rw [← hclose] at hrest
    rw [← hti, ← hk] at hinner
    exact .block howner hinner hpop hrest
  | @function s t u v inner items head opening closing whole opens closes result inside more hk hr
      hinner hpop _ ih =>
    have hnoif : ∀ stmt ∈ result, stmt.isIf = false := fun stmt hm => by
      obtain ⟨header, rfl⟩ := Step.function_of_ok hr stmt hm
      rfl
    have hclose := @Body.close_eq ⟨statements, .closed⟩ result (Token.openedKind head opening)
      (by simp [hk]) hnoif inside.statements
    have howner : Step.owner .closed (head ++ [opening]) s =
        (.ok (result.map .statement), t) := by
      rw [(Step.owner_of_blockKind _ _).2 hk]
      exact Fallible.map_eq_ok.2 ⟨result, hr, rfl⟩
    rw [← List.append_assoc]
    exact .block howner (hk ▸ hinner) hpop (hclose ▸ ih (ho.of_scopes rfl) _)

namespace Declares

theorem scopes_eq (h : Declares s items t new) (ho : s.Outside) : t.scopes = s.scopes :=
  ho.scopes_eq (h.leads ho [])

theorem outside (h : Declares s items t new) (ho : s.Outside) : t.Outside :=
  ho.of_scopes (h.scopes_eq ho)

theorem stdlib_eq (h : Declares s items t new) (ho : s.Outside) :
    t.stdlib = (s.stdlib && !finishesIn items) := (h.leads ho []).stdlib_eq

theorem isSkimming_eq (h : Declares s items t new) (ho : s.Outside) :
    t.isSkimming = s.isSkimming := by
  have hp : t.pass = s.pass := congrArg Frame.pass ((h.leads ho []).frame_eq ho.head?_ne)
  rw [Session.isSkimming, hp, Session.isSkimming]

theorem extends_log (h : Declares s items t new) (ho : s.Outside) : s.log.Extends t.log :=
  (h.leads ho []).extends_log

/-- Items are one item and then others. -/
theorem cons_iff {item : Item} : Declares s (item :: items) t new ↔
    ∃ u first rest, Declares s [item] u first ∧ Declares u items t rest ∧ new = first ++ rest := by
  constructor
  · intro h
    cases h with
    | line hr hrest => exact ⟨_, _, _, .of_line _ _ hr, hrest, rfl⟩
    | module hk hr hinner hrest =>
      exact ⟨_, _, _, .module hk hr hinner .nil, hrest, by rw [List.append_nil]⟩
    | function hk hr hinner hpop hrest =>
      exact ⟨_, _, _, .function hk hr hinner hpop .nil, hrest, by rw [List.append_nil]⟩
  · rintro ⟨u, first, rest, hone, hrest, rfl⟩
    cases hone with
    | line hr hnil =>
      cases hnil
      rw [List.append_nil]
      exact .line hr hrest
    | module hk hr hinner hnil =>
      cases hnil
      rw [List.append_nil]
      exact .module hk hr hinner hrest
    | function hk hr hinner hpop hnil =>
      cases hnil
      rw [List.append_nil]
      exact .function hk hr hinner hpop hrest

end Declares

end Item

end MuLang
