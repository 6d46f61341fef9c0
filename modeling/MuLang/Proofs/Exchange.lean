import MuLang.Proofs.Inventory
import MuLang.Proofs.Members

/-!
# Members that trade places

What a member of a module says and does is the same before and after its neighbour, as long as what
both have to look up is the same. So where two neighbours trade places, a reading of the other text
goes through as well, in a session that looks alike all the time, and the statements of the program
trade places in turn.
-/
namespace MuLang

/-! ## What a trade leaves as it is -/

namespace Item.Trades

variable {kind : ScopeKind} {items others : List Item}

/-- What is said is the same, in another order. -/
theorem perm_entriesIn (h : Trades kind items others) (path : ModulePath) :
    (entriesIn path items).Perm (entriesIn path others) := by
  induction h generalizing path with
  | swap => exact List.perm_append_comm_assoc _ _ _
  | later item _ ih => exact (ih path).append_left _
  | @inside kind head opening closing inner others rest _ _ _ _ ih =>
    refine List.Perm.append_right _ ?_
    rw [entries, entries]
    split
    · exact (ih _).cons _
    · rfl

theorem finishesIn_eq (h : Trades kind items others) : finishesIn items = finishesIn others := by
  induction h with
  | swap => simp only [finishesIn, Bool.or_left_comm]
  | later item _ ih => rw [finishesIn, ih, finishesIn]
  | inside _ ih => rw [finishesIn, finishes, ih, finishesIn, finishes]

/-- The types of all globals stay written. -/
theorem explicitIn (h : Trades kind items others) {stdlib : Bool}
    (he : ExplicitIn kind stdlib items) : ExplicitIn kind stdlib others := by
  induction h generalizing stdlib with
  | swap first second rest =>
    obtain ⟨hf, hs, hr⟩ := he
    have hk : ScopeKind.module ≠ .program := nofun
    exact ⟨(explicit_congr hk _ _ _).1 hs, (explicit_congr hk _ _ _).1 hf,
      (explicitIn_congr hk _ _ _).1 hr⟩
  | later item _ ih => exact ⟨he.1, ih he.2⟩
  | inside hi ih =>
    refine ⟨ih he.1, ?_⟩
    have hrest := he.2
    rwa [finishes, hi.finishesIn_eq] at hrest

end Item.Trades

namespace Item.Leads

variable {s t : Session} {body after : Body} {item : Item} {items others : List Item}
  {kind : ScopeKind}

theorem cons (h : Leads s body (item :: items) t after) :
    ∃ u next, Leads s body [item] u next ∧ Leads u next items t after := by
  cases h with
  | line hr hrest => exact ⟨_, _, .line hr .nil, hrest⟩
  | block hr hinner hpop hrest => exact ⟨_, _, .block hr hinner hpop .nil, hrest⟩

/-- Inside of a function no members trade places: no module is declared there. -/
theorem not_trades (ht : Trades kind items others) (h : Leads s body items t after)
    (hi : s.scopes.Inner) (hh : s.scopes.kinds.head? ≠ some .loopHeader) :
    s.scopes.currentKind ≠ kind := by
  induction ht generalizing s t body after with
  | swap => exact hi.2
  | @later kind items others item _ ih =>
    obtain ⟨u, next, hone, hrest⟩ := h.cons
    have hframe := hone.frame_eq hh
    have hbare : u.scopes.bare = s.scopes.bare := congrArg Frame.scopes hframe
    have hkinds : u.scopes.kinds = s.scopes.kinds := by
      rw [← ScopeStack.kinds_bare, hbare, ScopeStack.kinds_bare]
    rw [← ScopeStack.currentKind_bare, ← hbare, ScopeStack.currentKind_bare]
    exact ih hrest (hi.congr hbare) (hkinds ▸ hh)
  | inside _ ih =>
    cases h with
    | block hr hinner =>
      refine absurd (Session.currentKind_inside _ _ _) (ih hinner ?_ (Step.head?_inside hr))
      rw [ScopeStack.Inner, Session.currentKind_inside]
      refine ⟨Token.blockKind_ne_program _, fun hm => ?_⟩
      exact (Step.currentKind_of_module hr hm).elim hi.1 hi.2

end Item.Leads

/-! ## Sessions that look alike -/

variable {like : Likeness}

/-- Inside of modules one of the sessions alone may be in standard-library mode. -/
def Likeness.within (like : Likeness) (kind : ScopeKind) : Likeness :=
  { like with lax := kind = .module }

theorem Likeness.Lawful.within (h : like.Lawful) (kind : ScopeKind) :
    (like.within kind).Lawful := ⟨h.register, h.answers⟩

/-- Items lead on in a session that looks alike, and the sessions stay alike. -/
theorem Item.Leads.twin (hl : like.Lawful) {s t e : Session} {body after : Body}
    {items : List Item} (h : Leads s body items t after) (ha : s.Twin like e)
    (hk : s.scopes.kinds.head? ≠ some .loopHeader)
    (he : ExplicitIn s.scopes.currentKind s.stdlib items) :
    ∃ t', Leads e body items t' after ∧ t.Twin like t' := by
  induction h generalizing e with
  | nil => exact ⟨e, .nil, ha⟩
  | @line s t u body after items words stop whole stops result hr hrest ih =>
    have hone : Leads s body [.line words stop whole stops] t _ := .line hr .nil
    have hwritten : Step.Written (Token.afterModifiers (words ++ [stop])).head? s := by
      intro _ hg first hf hq
      have hn := he.1 (s.admitsGlobals_eq ▸ hg)
      simp [Token.startsWith, Option.mem_def.1 hf, hq] at hn
    obtain ⟨e', hread, htwin⟩ := (Step.twins_closed hl _).exists_ok ha hwritten hr
    have hkinds : t.scopes.kinds = s.scopes.kinds := by
      rw [← Reading.kinds_frame, hone.frame_eq hk, Reading.kinds_frame]
    obtain ⟨t', hleads, hlast⟩ := ih htwin (hkinds ▸ hk) (hone.explicit hk he)
    exact ⟨t', .line hread hleads, hlast⟩
  | @block s t u v body inside after inner items head opening closing whole opens closes owner
      scopes hr hinner hpop hrest ihi ih =>
    have hone : Leads s body [.block head opening inner closing whole opens closes] _ _ :=
      .block hr hinner hpop .nil
    have hframe := hone.frame_eq hk
    have hkinds : scopes.kinds = s.scopes.kinds := by
      rw [← Reading.kinds_frame s, ← hframe, Reading.kinds_frame]
    have hkind : scopes.currentKind = s.scopes.currentKind := by
      rw [← ScopeStack.currentKind_bare, ← s.scopes.currentKind_bare]
      exact congrArg (fun frame => frame.scopes.currentKind) hframe
    obtain ⟨e', hread, htwin⟩ := (Step.twins_owner hl _ _).exists_ok ha trivial hr
    have hentered : (t.inside s.scopes (Token.openedKind head opening)).Twin like
        (e'.inside e.scopes (Token.openedKind head opening)) := by
      refine htwin.withScopes (by rw [htwin.scopes_eq, ha.scopes_eq]) fun _ => ?_
      exact fun hp => Token.blockKind_ne_program _ ((t.currentKind_inside s.scopes _).symm.trans hp)
    have hstdlib : (t.inside s.scopes (Token.openedKind head opening)).stdlib = s.stdlib := by
      have hhead := (Step.secludes_owner body.chain (head ++ [opening]) s trivial).stdlib_eq
      rwa [hr] at hhead
    obtain ⟨u', hbody, hleft⟩ := ihi hentered (Step.head?_inside hr) (by
      rw [Session.currentKind_inside, hstdlib]
      exact he.1)
    have hnext : Session.Twin like { u with scopes } { u' with scopes } :=
      hleft.withScopes rfl fun hlax => by
        rw [hkind]
        exact ha.inside hlax
    obtain ⟨t', hleads, hlast⟩ := ih hnext (hkinds ▸ hk) (hone.explicit hk he)
    exact ⟨t', .block hread hbody (hleft.scopes_eq ▸ hpop) hleads, hlast⟩

/-- Two sessions that differ in their declarations and in their mode alone. -/
structure Session.Level (s t : Session) : Prop where
  pass_eq : t.pass = s.pass
  settings_eq : t.settings = s.settings
  scopes_eq : t.scopes = s.scopes
  log_eq : t.log = s.log

theorem Session.Level.symm {s t : Session} (h : s.Level t) : t.Level s :=
  ⟨h.pass_eq.symm, h.settings_eq.symm, h.scopes_eq.symm, h.log_eq.symm⟩

/-- Where one of the sessions alone may be in standard-library mode, another one that differs in its
declarations may stand in for the first. -/
theorem Session.Twin.level {s u e : Session} (ha : s.Twin like e) (h : s.Level u) (hl : like.lax)
    (hk : like.kin u.table e.table) : u.Twin like e where
  pass_eq := h.pass_eq.trans ha.pass_eq
  other_pass := ha.other_pass
  settings_eq := h.settings_eq.trans ha.settings_eq
  scopes_eq := h.scopes_eq.trans ha.scopes_eq
  kin := hk
  stdlib_eq := .inl hl
  inside hx := h.scopes_eq ▸ ha.inside hx
  unlimited := h.log_eq ▸ ha.unlimited
  logs := h.log_eq ▸ ha.logs

namespace Item.Declares

variable {s t e : Session} {items others : List Item} {new : List Stmt}

theorem level (h : Declares s items t new) (ho : s.Outside) (hc : t.log.Clean) : s.Level t := by
  have hf := (h.leads ho []).frame_eq ho.head?_ne
  exact ⟨congrArg Frame.pass hf, congrArg Frame.settings hf, h.scopes_eq ho,
    (h.extends_log ho).eq_of_clean hc⟩

/-- Items say the same in a session that looks alike. -/
theorem twin (hl : like.Lawful) (h : Declares s items t new) (ho : s.Outside)
    (ha : s.Twin like e) (he : ExplicitIn s.scopes.currentKind s.stdlib items) :
    ∃ t', Declares e items t' new ∧ t.Twin like t' := by
  obtain ⟨t', hleads, htwin⟩ := (h.leads ho []).twin hl ha ho.head?_ne he
  obtain ⟨others, hother, hsame⟩ := hleads.declares (ho.of_scopes ha.scopes_eq.symm) rfl
  obtain rfl : new = others := congrArg Body.statements hsame
  exact ⟨t', hother, htwin⟩

end Item.Declares

/-! ## Two neighbours trade places -/

/-- Statements of a program, or of the modules in it, stand in another order. -/
inductive Stmt.Trades : List Stmt → List Stmt → Prop
  | perm {body others : List Stmt} : body.Perm others → Trades body others
  | later {body others : List Stmt} (first : List Stmt) : Trades body others →
      Trades (first ++ body) (first ++ others)
  | inside {identifier : Token} {body others rest : List Stmt} : Trades body others →
      Trades (.module identifier body :: rest) (.module identifier others :: rest)

/-- Where items are read that trade places, either any two tables are alike, or all that the items
say is in the table already. -/
structure Likeness.Stable (like : Likeness) (s : Session) (items : List Item) : Prop where
  skim : like.pass = .skim → ∀ table other, like.kin table other
  evaluate : like.pass = .evaluate →
    ∀ entry ∈ Item.entriesIn s.scopes.currentModule items, ¬s.table.Lacks entry.key

namespace Likeness.Stable

variable {s t : Session} {item : Item} {items others : List Item} {new : List Stmt}

theorem table_eq (h : like.Stable s items) (hp : s.pass = like.pass)
    (hd : Item.Declares s items t new) (ho : s.Outside)
    (he : Item.ExplicitIn s.scopes.currentKind s.stdlib items)
    (hl : like.pass = .evaluate) : t.table = s.table := by
  have hs : s.isSkimming = false := by simp [Session.isSkimming, hp, hl]
  exact hd.table_eq hs ho he (h.evaluate hl)

/-- What a table is like does not change while the items are read. -/
theorem kin_iff (h : like.Stable s items) (hp : s.pass = like.pass)
    (hd : Item.Declares s items t new) (ho : s.Outside)
    (he : Item.ExplicitIn s.scopes.currentKind s.stdlib items)
    (other : SymbolTable) : like.kin t.table other ↔ like.kin s.table other := by
  cases hl : like.pass with
  | skim => exact iff_of_true (h.skim hl _ _) (h.skim hl _ _)
  | evaluate => rw [h.table_eq hp hd ho he hl]

theorem first (h : like.Stable s (item :: items)) : like.Stable s [item] := by
  refine ⟨h.skim, fun hl entry hm => h.evaluate hl entry ?_⟩
  rw [Item.entriesIn, Item.entriesIn, List.append_nil] at hm
  exact List.mem_append_left _ hm

theorem rest (h : like.Stable s (item :: items)) (hp : s.pass = like.pass)
    (hd : Item.Declares s [item] t new) (ho : s.Outside)
    (he : Item.ExplicitIn s.scopes.currentKind s.stdlib [item]) : like.Stable t items := by
  refine ⟨h.skim, fun hl entry hm => ?_⟩
  rw [h.first.table_eq hp hd ho he hl]
  rw [hd.scopes_eq ho] at hm
  exact h.evaluate hl entry (List.mem_append_right _ hm)

/-- Inside of a module the items are those of its block. -/
theorem inner {head : List Token} {opening closing : Token} {inside : List Item}
    {whole : Token.Unbroken head} {opens : opening.kind = .openCurly}
    {closes : closing.kind = .closeCurly} {result : Option Stmt}
    (h : like.Stable s (.block head opening inside closing whole opens closes :: items))
    (hk : Token.openedKind head opening = .module)
    (hr : Step.moduleStatement (Token.afterModifiers (head ++ [opening]))
      (Token.leadingModifiers (head ++ [opening])) s = (.ok result, t)) : like.Stable t inside := by
  obtain ⟨identifier, ha, htable, -, hmodule, -⟩ := Step.registers_module hk hr
  refine ⟨h.skim, fun hl => ?_⟩
  have hall := h.evaluate hl
  rw [Item.entriesIn, Item.entries, ha, List.cons_append, List.forall_mem_cons,
    List.forall_mem_append] at hall
  obtain ⟨hmine, hinside, -⟩ := hall
  rw [htable, hmodule, SymbolTable.register_module_of_held hmine]
  exact hinside

end Likeness.Stable

namespace Session.Twin

variable {s t e e' : Session} {kind inner : ScopeKind}

/-- Inside of a module the mode no longer matters. -/
theorem enter (h : s.Twin (like.within kind) e) (hi : inner = .module)
    (hk : s.scopes.currentKind = .module) : s.Twin (like.within inner) e where
  pass_eq := h.pass_eq
  other_pass := h.other_pass
  settings_eq := h.settings_eq
  scopes_eq := h.scopes_eq
  kin := h.kin
  stdlib_eq := .inl hi
  inside _ hp := by
    rw [hk] at hp
    cases hp
  unlimited := h.unlimited
  logs := h.logs

/-- Behind a module the sessions are alike as they were before it, but for what it declares. -/
theorem leave (h : t.Twin (like.within inner) e') (ha : s.Twin (like.within kind) e)
    (hs : (like.within kind).lax ∨ t.stdlib = e'.stdlib) :
    Twin (like.within kind) { t with scopes := s.scopes } { e' with scopes := e.scopes } where
  pass_eq := h.pass_eq
  other_pass := h.other_pass
  settings_eq := h.settings_eq
  scopes_eq := ha.scopes_eq
  kin := h.kin
  stdlib_eq := hs
  inside := ha.inside
  unlimited := h.unlimited
  logs := h.logs

end Session.Twin

namespace Item.Declares

variable {s t e : Session} {items others : List Item} {new : List Stmt} {kind : ScopeKind}

/-- Two neighbours in a module are declared the other way round as well. -/
theorem swap {first second : Item} {rest : List Item} (hl : like.Lawful)
    (h : Declares s (first :: second :: rest) t new) (hk : s.scopes.currentKind = .module)
    (ho : s.Outside) (ha : s.Twin (like.within .module) e)
    (he : ExplicitIn .module s.stdlib (first :: second :: rest)) (hc : t.log.Clean)
    (hs : like.Stable s (first :: second :: rest)) :
    ∃ t' new', Declares e (second :: first :: rest) t' new' ∧ t.Twin (like.within .module) t' ∧
      Stmt.Trades new new' := by
  obtain ⟨s₁, n₁, more, h₁, hmore, rfl⟩ := cons_iff.1 h
  obtain ⟨s₂, n₂, n₃, h₂, h₃, rfl⟩ := cons_iff.1 hmore
  have ho₁ := h₁.outside ho
  have ho₂ := h₂.outside ho₁
  have hc₂ := (h₃.extends_log ho₂).clean hc
  have hc₁ := (h₂.extends_log ho₁).clean hc₂
  have hp₁ : s₁.pass = like.pass := (h₁.level ho hc₁).pass_eq.trans ha.pass_eq
  have hx : (like.within .module).lax := rfl
  rw [← hk] at he
  have he₁ : ExplicitIn s.scopes.currentKind s.stdlib [first] := ⟨he.1, trivial⟩
  have hrest := h₁.explicit ho he
  have he₂ : ExplicitIn s₁.scopes.currentKind s₁.stdlib [second] := ⟨hrest.1, trivial⟩
  have hs₁ := hs.rest ha.pass_eq h₁ ho he₁
  have hk₁ := hs.first.kin_iff ha.pass_eq h₁ ho he₁
  have hk₂ := hs₁.first.kin_iff hp₁ h₂ ho₁ he₂
  -- The second member is read first, then the first one, and then those behind them.
  have a₁ := ha.level (h₁.level ho hc₁) hx ((hk₁ _).2 ha.kin)
  obtain ⟨e₁, hsecond, a₂⟩ := h₂.twin (hl.within _) ho₁ a₁ he₂
  have a₃ := (a₂.level (h₂.level ho₁ hc₂).symm hx ((hk₂ _).1 a₂.kin)).level
    (h₁.level ho hc₁).symm hx ((hk₁ _).1 ((hk₂ _).1 a₂.kin))
  obtain ⟨e₂, hfirst, a₄⟩ := h₁.twin (hl.within _) ho a₃ he₁
  have a₅ := a₄.level (h₂.level ho₁ hc₂) hx ((hk₂ _).2 a₄.kin)
  obtain ⟨t', hlast, a₆⟩ := h₃.twin (hl.within _) ho₂ a₅ (h₂.explicit ho₁ hrest)
  refine ⟨t', _, cons_iff.2 ⟨e₁, _, _, hsecond, cons_iff.2 ⟨e₂, _, _, hfirst, hlast, rfl⟩, rfl⟩,
    a₆, .perm (List.perm_append_comm_assoc _ _ _)⟩

/-- Where two members of a module have traded places, what they say has done so too. -/
theorem trades (hl : like.Lawful) (ht : Trades kind items others) (h : Declares s items t new)
    (hk : s.scopes.currentKind = kind) (ho : s.Outside) (ha : s.Twin (like.within kind) e)
    (he : ExplicitIn kind s.stdlib items) (hc : t.log.Clean) (hs : like.Stable s items) :
    ∃ t' new', Declares e others t' new' ∧ t.Twin (like.within kind) t' ∧
      Stmt.Trades new new' := by
  induction ht generalizing s t e new with
  | swap first second rest => exact h.swap hl hk ho ha he hc hs
  | later item _ ih =>
    obtain ⟨s₁, n₁, more, h₁, hmore, rfl⟩ := cons_iff.1 h
    have ho₁ := h₁.outside ho
    have hc₁ := (hmore.extends_log ho₁).clean hc
    rw [← hk] at he
    have he₁ : ExplicitIn s.scopes.currentKind s.stdlib [item] := ⟨he.1, trivial⟩
    have hk₁ : s₁.scopes.currentKind = _ := (congrArg _ (h₁.scopes_eq ho)).trans hk
    obtain ⟨e₁, hitem, a₁⟩ := h₁.twin (hl.within _) ho ha he₁
    obtain ⟨t', new', hothers, a₂, htrades⟩ := ih hmore hk₁ ho₁ a₁ (hk₁ ▸ h₁.explicit ho he) hc
      (hs.rest ha.pass_eq h₁ ho he₁)
    exact ⟨t', _, cons_iff.2 ⟨e₁, _, _, hitem, hothers, rfl⟩, a₂, htrades.later n₁⟩
  | @inside kind head opening closing inner others rest whole opens closes hi ih =>
    rw [← hk] at he
    have hone := h
    cases h with
    | function hb hr hinner =>
      obtain ⟨hinside, hh⟩ := Step.inside_function hb hr
      exact absurd ((Session.currentKind_inside _ _ _).trans hb.symm)
        (hinner.not_trades hi hinside hh)
    | @module _ s₁ u _ _ _ _ _ _ _ _ _ result inside more hb hr hinner hrest =>
      obtain ⟨identifier, -, -, -, -, -, hstdlib, -⟩ := Step.registers_module hb hr
      obtain ⟨hto, hkind, -, -⟩ := ho.inside hr
      have hbody : s₁.scopes.currentKind = Token.openedKind head opening := hkind.trans hb.symm
      have hc₁ : u.log.Clean := (hrest.extends_log (ho.of_scopes rfl)).clean hc
      obtain ⟨e₁, hread, a₁⟩ :=
        (Step.twins_moduleStatement (hl.within _) _ _).exists_ok ha trivial hr
      obtain ⟨u', inside', hothers, a₂, htrades⟩ := ih hinner hbody hto (a₁.enter hb hkind)
        (hstdlib ▸ he.1) hc₁ (hs.inner hb hr)
      have a₃ := a₂.leave ha (by
        rw [hinner.stdlib_eq hto, hothers.stdlib_eq (hto.of_scopes a₁.scopes_eq.symm),
          hi.finishesIn_eq]
        exact a₁.stdlib_eq.imp_right fun h => by rw [h])
      obtain ⟨t', hrest', a₄⟩ := hrest.twin (hl.within _) (ho.of_scopes rfl) a₃
        (Declares.explicit (.module hb hr hinner .nil) ho he)
      refine ⟨t', _, .module hb hread hothers hrest', a₄, ?_⟩
      obtain ⟨name, -, -, rfl, -⟩ := Step.moduleStatement_ok hr
      split
      · exact .perm .rfl
      · exact htrades.inside

end Item.Declares

end MuLang
