import MuLang.Proofs.Parentheses
import MuLang.Proofs.Paths
import MuLang.Proofs.Run
import MuLang.Proofs.Skimming

/-!
# Inferred globals

The rounds after the first pass end with all globals declared whose types follow from their values,
however the declarations are ordered. In particular, globals that take their values from one another,
down to a literal, all get the type of the literal.
-/
namespace MuLang

/-! ## Names of the own module -/

/-- A module comes first among those that an unqualified name is looked up in. -/
theorem ModulePath.exists_ancestors (path : ModulePath) : ∃ rest, path.ancestors = path :: rest := by
  obtain rfl | ⟨outer, name, rfl⟩ := path.eq_nil_or_concat'
  · exact ⟨[], rfl⟩
  · exact ⟨_, ancestors_concat outer name⟩

theorem QualifiedName.split_of_not_isDotted {text : String} (h : isDotted text = false) :
    split text = ⟨[], text⟩ :=
  split_of_not_mem fun hm => by simp [isDotted, hm] at h

theorem SymbolTable.resolveGlobal?_own {table : SymbolTable} {path : ModulePath} {name : String}
    {v : Variable} (hd : isDotted name = false)
    (h : (table.module path).global? name = some v) :
    table.resolveGlobal? path name = some (path, v) := by
  obtain ⟨rest, hr⟩ := path.exists_ancestors
  simp [resolveGlobal?, QualifiedName.split_of_not_isDotted hd, hr, h]

namespace Env

variable {env : Env} {scopes : ScopeStack} {token context : Token}

/-- Every boundary leaves room for the module that it is drawn around. -/
theorem admits_own (env : Env) (path : ModulePath) (modifiers : List Modifier) :
    env.admits path path modifiers := by
  refine (env.admits_iff path path modifiers).2 fun boundary _ => ?_
  cases boundary with
  | sameModule => exact rfl
  | subtree => exact List.prefix_refl path
  | siblings => exact List.dropLast_prefix path

/-- Where there are no locals an unqualified name stands for the global of the own module. -/
theorem read_own {v : Variable} (hs : scopes.Vacant) (hd : isDotted token.text = false)
    (h : (env.table.module scopes.currentModule).global? token.text = some v) :
    env.read scopes token = .ok (.read v.datatype token) := by
  have ha : env.checkAccess scopes.currentModule scopes.currentModule "variable" v.modifiers token =
      .ok () := if_pos (env.admits_own _ _)
  have hg : env.global scopes.currentModule token =
      .ok ⟨.globalOf scopes.currentModule, v⟩ := by
    rw [global, QualifiedName.split_of_not_isDotted hd, SymbolTable.resolveGlobal?_own hd h]
    exact congrArg (Except.map _) ha
  rw [read, resolve_outside hs, hg]

/-- What a name stands for where there are no locals is a global of some module. -/
theorem exists_global_of_read {value : Expr} (hs : scopes.Vacant) (hd : isDotted token.text = false)
    (h : env.read scopes token = .ok value) :
    ∃ owner v, (env.table.module owner).global? token.text = some v ∧ value.type = v.datatype := by
  rw [read, resolve_outside hs] at h
  cases hg : env.global scopes.currentModule token with
  | error error =>
    rw [hg] at h
    cases h
  | ok resolved =>
    obtain ⟨owner, v, rfl, hr⟩ := resolveGlobal?_of_global hg
    rw [hg] at h
    cases h
    have hfound := SymbolTable.global?_of_resolveGlobal? hr
    rw [QualifiedName.split_of_not_isDotted hd] at hfound
    exact ⟨owner, v, hfound, rfl⟩

/-! ## Values of a single token -/

theorem expression_literal {kind : Literal} (hk : token.kind = .literal kind) :
    (env.expression [token] context scopes).1 = Env.literal kind token := by
  have hterm : Term.ofTokens [token] context = .literal kind token :=
    (Term.operand_complete (.literal hk)).trans (Term.afterOperand_ends rfl)
  rw [expression, hterm]
  exact congrArg Prod.fst (Fallible.ofExcept_apply (Env.literal kind token) scopes)

theorem expression_read (hk : token.kind = .identifier) :
    (env.expression [token] context scopes).1 = env.read scopes token := by
  have hterm : Term.ofTokens [token] context = .read token :=
    (Term.operand_complete (.read hk (by simp))).trans (Term.afterOperand_ends rfl)
  rw [expression, hterm]
  exact congrArg Prod.fst (Fallible.ofExcept_apply (env.read scopes token) scopes)

end Env

/-- A literal other than `null` says the type of the variable that is given it. -/
theorem Step.inferredType?_literal {kind : Literal} (h : kind ≠ .null) :
    inferredType? [] kind.datatype = some kind.datatype := by
  cases kind <;> first | rfl | exact absurd rfl h

/-! ## Chains of globals -/

/-- Globals of one module. Each of them is given the value of the next one, and the last one that of
a literal. -/
structure GlobalChain where
  module : ModulePath
  names : List String
  kind : Literal
  text : String
  accepts : kind.accepts text
  ne_null : kind ≠ .null

namespace GlobalChain

/-- Names with the values that they are given. -/
def linksTo (value : Lexeme) : List String → List (String × Lexeme)
  | [] => []
  | [name] => [(name, value)]
  | name :: next :: rest => (name, ⟨.identifier, next⟩) :: linksTo value (next :: rest)

variable {value : Lexeme} {names : List String} {link : String × Lexeme}

theorem mem_linksTo (h : link ∈ linksTo value names) : link.1 ∈ names ∧
    (link.2 = value ∨ ∃ next ∈ names, link.2 = ⟨.identifier, next⟩) := by
  induction names using linksTo.induct with
  | case1 => cases h
  | case2 name =>
    obtain rfl := List.mem_singleton.1 h
    exact ⟨List.mem_singleton_self _, .inl rfl⟩
  | case3 name next rest ih =>
    obtain rfl | h := List.mem_cons.1 h
    · exact ⟨List.mem_cons_self, .inr ⟨next, by simp, rfl⟩⟩
    · obtain ⟨hm, hv⟩ := ih h
      exact ⟨List.mem_cons_of_mem _ hm, hv.imp_right fun ⟨next, hn, he⟩ =>
        ⟨next, List.mem_cons_of_mem _ hn, he⟩⟩

/-- What holds of each name whose value is the literal or a name of which it holds, holds of all
names: from the last one to the first. -/
theorem forall_names {P : String → Prop} (h : ∀ link ∈ linksTo value names,
    (link.2 = value ∨ ∃ next ∈ names, link.2 = ⟨.identifier, next⟩ ∧ P next) → P link.1) :
    ∀ name ∈ names, P name := by
  induction names using linksTo.induct with
  | case1 => exact List.forall_mem_nil _
  | case2 name => exact List.forall_mem_singleton.2 (h _ (List.mem_singleton_self _) (.inl rfl))
  | case3 name next rest ih =>
    obtain ⟨hname, hrest⟩ := List.forall_mem_cons.1 h
    have hnames := ih fun link hl hv => hrest link hl <| hv.imp_right
      fun ⟨other, ho, hp⟩ => ⟨other, List.mem_cons_of_mem _ ho, hp⟩
    refine List.forall_mem_cons.2 ⟨hname (.inr ⟨next, by simp, rfl, ?_⟩), hnames⟩
    exact hnames next List.mem_cons_self

/-- The declaration `? NAME = VALUE;`. -/
def declaration (link : String × Lexeme) : List Lexeme :=
  [⟨.question, "?"⟩, ⟨.identifier, link.1⟩, ⟨.assign .plain, "="⟩, link.2, ⟨.semicolon, ";"⟩]

variable (chain : GlobalChain)

/-- The literal at the end. -/
def literal : Lexeme := ⟨.literal chain.kind, chain.text⟩

def links : List (String × Lexeme) := linksTo chain.literal chain.names

/-- The global of a name of the chain, with the type of the literal. -/
def entry (name : String) : Variable := ⟨name, chain.kind.datatype, [], true⟩

/-- A global that is declared as a link of the chain. -/
def Declares (global : SkimmedGlobal) (link : String × Lexeme) : Prop :=
  global.module = chain.module ∧ global.words.map Token.toLexeme = declaration link

instance (global : SkimmedGlobal) (link : String × Lexeme) :
    Decidable (chain.Declares global link) :=
  inferInstanceAs (Decidable (_ ∧ _))

/-- Among some globals are those of the chain, in any order, and no other ones of their names. -/
structure DeclaredBy (globals : List SkimmedGlobal) : Prop where
  declared : ∀ link ∈ chain.links, ∃ global ∈ globals, chain.Declares global link
  nowhere_else : ∀ global ∈ globals, global.name ∈ chain.names →
    ∃ link ∈ chain.links, chain.Declares global link

instance (globals : List SkimmedGlobal) : Decidable (chain.DeclaredBy globals) :=
  decidable_of_iff ((∀ link ∈ chain.links, ∃ global ∈ globals, chain.Declares global link) ∧
    ∀ global ∈ globals, global.name ∈ chain.names →
      ∃ link ∈ chain.links, chain.Declares global link)
    ⟨fun h => ⟨h.1, h.2⟩, fun h => ⟨h.1, h.2⟩⟩

/-- A deferred global is a link of the chain. -/
structure Awaits (global : DeferredGlobal) (link : String × Lexeme) : Prop where
  mem : link ∈ chain.links
  module_eq : global.module = chain.module
  name_eq : global.identifier.text = link.1
  modifiers_eq : global.modifiers = []
  value_eq : ∃ token : Token, token.toLexeme = link.2 ∧ global.value = [token]

/-- All globals of a table with names of the chain are those of the chain. -/
def Owns (table : SymbolTable) : Prop :=
  ∀ p name v, (table.module p).global? name = some v → name ∈ chain.names →
    p = chain.module ∧ v = chain.entry name

/-- Whatever is declared or deferred under a name of the chain is a link of it. -/
structure Holds (session : Session) : Prop where
  owns : chain.Owns session.table
  awaits : ∀ global ∈ session.deferred, global.identifier.text ∈ chain.names →
    ∃ link, chain.Awaits global link

variable {chain} {table : SymbolTable} {global : DeferredGlobal} {skimmed : SkimmedGlobal}
  {globals : List SkimmedGlobal} {s t : Session}

/-! ### What a link says -/

/-- What the words of a link say where they can be read. -/
theorem form_of_declaration {words : List Token} {form : VariableForm}
    (hw : words.map Token.toLexeme = declaration link)
    (h : VariableForm.ofTokens (Token.afterModifiers words) = .ok form) :
    form.typeKeyword.kind = .question ∧ form.identifier.text = link.1 ∧
      isDotted link.1 = false ∧ Token.leadingModifiers words = [] ∧
      ∃ token : Token, token.toLexeme = link.2 ∧ form.value = some [token] := by
  obtain ⟨question, _, rfl, hquestion, hw⟩ := List.map_eq_cons_iff.1 hw
  obtain ⟨identifier, _, rfl, hidentifier, hw⟩ := List.map_eq_cons_iff.1 hw
  obtain ⟨mark, _, rfl, hmark, hw⟩ := List.map_eq_cons_iff.1 hw
  obtain ⟨value, _, rfl, hvalue, hw⟩ := List.map_eq_cons_iff.1 hw
  obtain ⟨stop, _, rfl, -, hw⟩ := List.map_eq_cons_iff.1 hw
  obtain rfl := List.map_eq_nil_iff.1 hw
  have hq : question.kind = .question := congrArg Lexeme.kind hquestion
  have hi : identifier.kind = .identifier := congrArg Lexeme.kind hidentifier
  have hm : mark.kind = .assign .plain := congrArg Lexeme.kind hmark
  have hname : identifier.text = link.1 := congrArg Lexeme.text hidentifier
  have hplain : question.kind.isModifier = false := by rw [hq]; rfl
  rw [Token.afterModifiers, List.dropWhile_cons_of_neg (by simp [hplain])] at h
  rw [Token.leadingModifiers, List.takeWhile_cons_of_neg (by simp [hplain])]
  simp [VariableForm.ofTokens, Token.tokenAt, Token.expectName, Token.expectAt, Token.valueFrom, hq,
    hi, hm] at h
  obtain ⟨hd, rfl⟩ := h
  exact ⟨hq, hname, hname ▸ hd, rfl, value, hvalue, rfl⟩

theorem name_of_declares (h : chain.Declares skimmed link) :
    skimmed.name = link.1 ∧ isDotted link.1 = false := by
  obtain ⟨-, hname, hd, -, -⟩ := form_of_declaration h.2 skimmed.form_eq
  exact ⟨hname, hd⟩

/-- Until its type is known, a link of the chain is deferred as one. -/
theorem exists_deferral (h : chain.Declares skimmed link) (hl : link ∈ chain.links) :
    ∃ deferred ∈ skimmed.deferral?, chain.Awaits deferred link := by
  obtain ⟨hq, hname, -, hm, token, ht, hv⟩ := form_of_declaration h.2 skimmed.form_eq
  rw [SkimmedGlobal.deferral?, if_pos hq, hv]
  exact ⟨_, rfl, hl, h.1, hname, hm, token, ht, rfl⟩

/-- A link that is the literal, or names a global that is declared by now. -/
def Ready (chain : GlobalChain) (table : SymbolTable) (link : String × Lexeme) : Prop :=
  link.2 = chain.literal ∨
    ∃ next ∈ chain.names, link.2 = ⟨.identifier, next⟩ ∧ table.HasGlobal chain.module next

/-- The literal is in range, and so it is typed wherever it stands. -/
theorem expression_literal {env : Env} {scopes : ScopeStack} {token context : Token}
    (h : token.toLexeme = chain.literal) : (env.expression [token] context scopes).1 =
      .ok (.literal chain.kind.datatype token) := by
  have hk : token.kind = .literal chain.kind := congrArg Lexeme.kind h
  have ht : token.text = chain.text := congrArg Lexeme.text h
  rw [Env.expression_literal hk, Env.literal, if_pos (ht ▸ chain.accepts)]

section Types

variable (hd : ∀ name ∈ chain.names, isDotted name = false) (ho : chain.Owns s.table)
  (hv : s.scopes.Vacant) (ha : chain.Awaits global link)
include hd ho hv ha

/-- Whatever type is inferred for a link is that of the literal. -/
theorem datatype_of_inferGlobal? {type : Datatype}
    (h : Step.inferGlobal? global s = (.ok (some type), s)) : type = chain.kind.datatype := by
  rw [Session.inferGlobal?_eq hv] at h
  obtain ⟨value, hx, ht⟩ := Option.bind_eq_some_iff.1 (Except.ok.inj (Prod.mk.inj h).1)
  have htype : value.type = chain.kind.datatype := by
    obtain ⟨token, hlink, hvalue⟩ := ha.value_eq
    rw [hvalue] at hx
    obtain ⟨-, hl | ⟨next, hn, hl⟩⟩ := mem_linksTo ha.mem
    · rw [expression_literal (hlink.trans hl)] at hx
      obtain rfl := Option.some.inj hx
      rfl
    · have hk : token.kind = .identifier := congrArg Lexeme.kind (hlink.trans hl)
      obtain rfl : token.text = next := congrArg Lexeme.text (hlink.trans hl)
      rw [Env.expression_read hk] at hx
      cases hr : s.env.read s.scopes token with
      | error error =>
        rw [hr] at hx
        cases hx
      | ok read =>
        rw [hr] at hx
        obtain rfl := Option.some.inj hx
        obtain ⟨owner, v, hg, hvt⟩ := Env.exists_global_of_read hv (hd _ hn) hr
        rw [hvt, (ho _ _ _ hg hn).2]
        rfl
  rw [ha.modifiers_eq, htype, Step.inferredType?_literal chain.ne_null] at ht
  exact (Option.some.inj ht).symm

/-- A link can be typed as soon as the global that it names is declared. -/
theorem inferGlobal?_of_ready (hm : s.scopes.currentModule = chain.module)
    (hr : chain.Ready s.table link) :
    Step.inferGlobal? global s = (.ok (some chain.kind.datatype), s) := by
  obtain ⟨token, hlink, hvalue⟩ := ha.value_eq
  have hx : ∃ value, (s.env.expression global.value global.typeKeyword s.scopes).1 = .ok value ∧
      value.type = chain.kind.datatype := by
    rw [hvalue]
    obtain hl | ⟨next, hn, hl, hg⟩ := hr
    · exact ⟨_, expression_literal (hlink.trans hl), rfl⟩
    · have hk : token.kind = .identifier := congrArg Lexeme.kind (hlink.trans hl)
      obtain rfl : token.text = next := congrArg Lexeme.text (hlink.trans hl)
      obtain ⟨v, hfound⟩ := Option.isSome_iff_exists.1 hg
      rw [Env.expression_read hk, Env.read_own hv (hd _ hn) (hm.symm ▸ hfound)]
      refine ⟨_, rfl, ?_⟩
      rw [(ho _ _ _ hfound hn).2]
      rfl
  obtain ⟨value, hx, ht⟩ := hx
  rw [Session.inferGlobal?_eq hv, hx, ha.modifiers_eq]
  exact congrArg (fun type? => (Except.ok type?, s))
    (ht ▸ Step.inferredType?_literal chain.ne_null)

end Types

/-! ### The invariant -/

theorem entry_of_registers {v : Variable} {name : String} (hr : v.Registers name [])
    (ht : v.datatype = chain.kind.datatype) : v = chain.entry v.name := by
  obtain ⟨_, _, _, _⟩ := v
  obtain ⟨rfl, rfl, hi⟩ := hr
  obtain rfl := ht
  obtain rfl := hi
  rfl

theorem owns_empty : chain.Owns .empty := fun _ _ v hg _ =>
  absurd (Option.isSome_iff_exists.2 ⟨v, hg⟩) SymbolTable.not_hasGlobal_empty

theorem Owns.register {path : ModulePath} {v : Variable} (ho : chain.Owns table)
    (hv : v.name ∈ chain.names → path = chain.module ∧ v = chain.entry v.name) :
    chain.Owns ((table.addVariable path v).toOption.getD table) := by
  intro p name found h hn
  obtain h | ⟨rfl, rfl, rfl⟩ := Session.global?_of_register h
  · exact ho p name found h hn
  · exact hv hn

section Preservation

variable (hd : ∀ name ∈ chain.names, isDotted name = false)
include hd

/-- To register or defer a link keeps the invariant, and so does to register or defer a global of
another name. -/
theorem Holds.skim (hs : chain.Holds s) (hv : s.scopes.Vacant)
    (hm : skimmed.module = s.scopes.currentModule)
    (hg : skimmed.name ∈ chain.names → ∃ link ∈ chain.links, chain.Declares skimmed link) :
    chain.Holds (skimmed.skim s).2 := by
  obtain ⟨v, hr, hi, h⟩ | ⟨deferred, hdeferral, -, h⟩ | ⟨-, h⟩ := skimmed.skim_cases hv hm <;>
    rw [h]
  · refine ⟨hs.owns.register fun hn => ?_, hs.awaits⟩
    obtain ⟨link, hl, hdeclares⟩ := hg (hr.name_eq ▸ hn)
    obtain ⟨deferred, hdeferral, ha⟩ := exists_deferral hdeclares hl
    refine ⟨hdeclares.1, ?_⟩
    obtain ⟨-, -, -, hmodifiers, -⟩ := form_of_declaration hdeclares.2 skimmed.form_eq
    rw [SkimmedGlobal.modifiers, hmodifiers] at hr
    exact entry_of_registers hr (datatype_of_inferGlobal? hd hs.owns hv ha (hi deferred hdeferral))
  · refine ⟨hs.owns, fun other hother hn => ?_⟩
    obtain hother | hother := List.mem_append.1 hother
    · exact hs.awaits other hother hn
    · obtain rfl := List.mem_singleton.1 hother
      have hname : other.identifier.text = skimmed.name := by
        obtain ⟨value, -, rfl⟩ := Option.map_eq_some_iff.1 hdeferral
        rfl
      obtain ⟨link, hl, hdeclares⟩ := hg (hname ▸ hn)
      obtain ⟨deferred, ho, ha⟩ := exists_deferral hdeclares hl
      exact ⟨link, Option.mem_unique ho hdeferral ▸ ha⟩
  · exact hs

/-- The invariant holds after the first pass. -/
theorem Holds.skims (h : s.Skims globals t) (hs : chain.Holds s)
    (hg : ∀ global ∈ globals, global.name ∈ chain.names →
      ∃ link ∈ chain.links, chain.Declares global link) : chain.Holds t := by
  induction h with
  | done s => exact hs
  | spared h _ ih =>
    refine ih ⟨fun p name v hfound => hs.owns p name v ?_, h.deferred_eq ▸ hs.awaits⟩ hg
    rwa [h.global?_eq] at hfound
  | refused _ _ ih => exact ih hs (List.forall_mem_cons.1 hg).2
  | skimmed hv hm _ _ ih =>
    obtain ⟨hglobal, hrest⟩ := List.forall_mem_cons.1 hg
    exact ih (hs.skim hd hv hm hglobal) hrest

/-- The rounds keep to the entries of the chain. -/
theorem Owns.retry (ho : chain.Owns s.table) (hv : s.scopes.Vacant)
    (hg : global.identifier.text ∈ chain.names → ∃ link, chain.Awaits global link) :
    chain.Owns (s.retry global).2.table := by
  obtain ⟨v, hr, hi, h⟩ | ⟨-, h⟩ := Session.retry_cases hv global <;> rw [h]
  · refine ho.register fun hn => ?_
    obtain ⟨link, ha⟩ := hg (hr.name_eq ▸ hn)
    refine ⟨ha.module_eq, ?_⟩
    rw [ha.modifiers_eq] at hr
    refine entry_of_registers hr ?_
    exact datatype_of_inferGlobal? (s := s.insideModule global.module) hd ho (hv.pushIn _) ha hi
  · exact ho

theorem Owns.resolveDeferred {pending : List DeferredGlobal} (ho : chain.Owns s.table)
    (hv : s.scopes.Vacant) (hg : ∀ global ∈ pending, global.identifier.text ∈ chain.names →
      ∃ link, chain.Awaits global link) : chain.Owns (s.resolveDeferred pending).table :=
  (@Session.resolveDeferred_preserves (fun s => s.scopes.Vacant ∧ chain.Owns s.table)
    (fun global => global.identifier.text ∈ chain.names → ∃ link, chain.Awaits global link)
    (fun _ global hg hs => ⟨(Session.retried_retry hs.1 global).vacant hs.1, hs.2.retry hd hs.1 hg⟩)
    s pending hg ⟨hv, ho⟩).2

end Preservation

end GlobalChain

/-! ## The globals of a program -/

namespace Session

/-- The globals that the first pass has deferred. -/
def pending (settings : Settings) (tokens : List Token) : List DeferredGlobal :=
  ((initial settings).readPass .skim tokens).1.deferred

/-- The rounds over them. -/
def skimRounds (settings : Settings) (tokens : List Token) : Rounds :=
  (betweenPasses settings tokens).rounds (pending settings tokens)

variable (settings : Settings) (tokens : List Token)

theorem last_skimRounds : (skimRounds settings tokens).last = skim settings tokens :=
  last_rounds _ _

theorem vacant_betweenPasses : (betweenPasses settings tokens).scopes.Vacant :=
  (skims_readPass settings tokens).2.1

/-- All deferred globals are declared but those that the rounds leave, and of these none can be
typed. -/
theorem skimRounds_spec :
    Retried (pending settings tokens) (betweenPasses settings tokens) (skim settings tokens) ∧
      (∀ global ∈ pending settings tokens, global ∈ (skimRounds settings tokens).left ∨
        (skim settings tokens).table.HasGlobal global.module global.identifier.text) ∧
      ∀ global ∈ (skimRounds settings tokens).left,
        Step.inferGlobal? global ((skim settings tokens).insideModule global.module) =
          (.ok none, (skim settings tokens).insideModule global.module) := by
  have hv := vacant_betweenPasses settings tokens
  obtain ⟨hretried, hdeclared, hstuck⟩ := rounds_spec _ (pending settings tokens) hv
  change Retried _ _ (skimRounds settings tokens).last at hretried
  change ∀ global ∈ (skimRounds settings tokens).left, ¬global.Typed
    (skimRounds settings tokens).last.env at hstuck
  change ∀ global ∈ pending settings tokens, _ → global ∈ (skimRounds settings tokens).left ∨
    (skimRounds settings tokens).last.table.HasGlobal _ _ at hdeclared
  rw [last_skimRounds] at hretried hdeclared hstuck
  have hanchored := (skims_readPass settings tokens).2.2
  exact ⟨hretried, fun global hg => hdeclared global hg (hanchored.toRooted.deferred global hg),
    fun global hg => inferGlobal?_of_not_typed (hretried.vacant hv) (hstuck global hg)⟩

end Session

namespace GlobalChain

variable {chain : GlobalChain} {settings : Settings} {tokens : List Token}

/-- However the globals of a chain are ordered, in the end all of them are declared. -/
theorem global?_skim
    (h : chain.DeclaredBy ((Reading.start (.initial settings) .skim).globals tokens)) :
    ∀ name ∈ chain.names, ((Session.skim settings tokens).table.module chain.module).global? name =
      some (chain.entry name) := by
  obtain ⟨hskims, hv, -⟩ := Session.skims_readPass settings tokens
  obtain ⟨hretried, hdeclared, hstuck⟩ := Session.skimRounds_spec settings tokens
  have hd : ∀ name ∈ chain.names, isDotted name = false := by
    refine forall_names fun link (hl : link ∈ chain.links) _ => ?_
    obtain ⟨global, -, hglobal⟩ := h.declared link hl
    exact (name_of_declares hglobal).2
  have hholds : chain.Holds ((Session.initial settings).readPass .skim tokens).1 :=
    .skims hd hskims ⟨owns_empty, List.forall_mem_nil _⟩ h.nowhere_else
  have howns : chain.Owns (Session.skim settings tokens).table :=
    .resolveDeferred hd hholds.owns hv hholds.awaits
  -- A link that the rounds left could not be typed, though the global that it names is declared.
  have hall : ∀ name ∈ chain.names,
      (Session.skim settings tokens).table.HasGlobal chain.module name := by
    refine forall_names fun link (hl : link ∈ chain.links) hready => ?_
    obtain ⟨global, hg, hglobal⟩ := h.declared link hl
    obtain ⟨deferred, hdeferral, ha⟩ := exists_deferral hglobal hl
    obtain hfound | hpending := hskims.declared_or_deferred global hg deferred hdeferral
    · rw [hglobal.1, (name_of_declares hglobal).1] at hfound
      exact hretried.grows.hasGlobal _ _ hfound
    · obtain hleft | hfound := hdeclared deferred hpending
      · have hlast : (Session.skim settings tokens).scopes.Vacant := hretried.vacant hv
        have hready := inferGlobal?_of_ready
          (s := (Session.skim settings tokens).insideModule deferred.module) hd howns
          (hlast.pushIn deferred.module) ha ha.module_eq hready
        cases (hstuck deferred hleft).symm.trans hready
      · rwa [ha.module_eq, ha.name_eq] at hfound
  intro name hn
  obtain ⟨v, hfound⟩ := Option.isSome_iff_exists.1 (hall name hn)
  rw [hfound, (howns _ _ _ hfound hn).2]

end GlobalChain

/-- The rounds after the first pass come to an end, at the latest after one round more than there
are deferred globals. Then each of these is declared, or it is left and no type can be inferred for
it inside its module. A global whose name another one has taken counts as declared. In particular
the globals of a chain, in whatever order they are declared, all get the type of the literal. -/
theorem Session.skim_infers (settings : Settings) (tokens : List Token) :
    (skimRounds settings tokens).last = skim settings tokens ∧
      (skimRounds settings tokens).count ≤ (pending settings tokens).length + 1 ∧
      (skimRounds settings tokens).left.Sublist (pending settings tokens) ∧
      (∀ global ∈ pending settings tokens, global ∈ (skimRounds settings tokens).left ∨
        (skim settings tokens).table.HasGlobal global.module global.identifier.text) ∧
      (∀ global ∈ (skimRounds settings tokens).left,
        Step.inferGlobal? global ((skim settings tokens).insideModule global.module) =
          (.ok none, (skim settings tokens).insideModule global.module)) ∧
      ∀ chain : GlobalChain,
        chain.DeclaredBy ((Reading.start (initial settings) .skim).globals tokens) →
        ∀ name ∈ chain.names, ((skim settings tokens).table.module chain.module).global? name =
          some (chain.entry name) := by
  obtain ⟨-, hdeclared, hstuck⟩ := skimRounds_spec settings tokens
  exact ⟨last_skimRounds settings tokens, count_rounds_le _ _, left_rounds_sublist _ _, hdeclared,
    hstuck, fun _ => GlobalChain.global?_skim⟩

/-- The globals of `? a = b; ? b = c; ? c = 1;`. -/
def forwardChain : GlobalChain :=
  ⟨["m"], ["a", "b", "c"], .integer, "1", by decide +kernel, nofun⟩

/-- Their declarations inside of their module. -/
def forwardProgram : List Token :=
  let words : List Lexeme :=
    [⟨.keyword .moduleWord, "module"⟩, ⟨.identifier, "m"⟩, ⟨.openCurly, "\x7b"⟩] ++
      forwardChain.links.flatMap GlobalChain.declaration ++ [⟨.closeCurly, "\x7d"⟩]
  words.map (⟨·, .nowhere⟩)

/-- The first two globals are deferred, and all three are of type `int` in the end. -/
theorem Session.skim_infers_forward :
    forwardChain.DeclaredBy ((Reading.start (initial {}) .skim).globals forwardProgram) ∧
      (pending {} forwardProgram).map (·.identifier.text) = ["a", "b"] ∧
      ∀ name ∈ ["a", "b", "c"], ((skim {} forwardProgram).table.module ["m"]).global? name =
        some ⟨name, .plain .int, [], true⟩ := by
  have hdeclared :
      forwardChain.DeclaredBy ((Reading.start (initial {}) .skim).globals forwardProgram) := by
    decide +kernel
  obtain ⟨-, -, -, -, -, hchain⟩ := skim_infers {} forwardProgram
  exact ⟨hdeclared, by decide +kernel, hchain forwardChain hdeclared⟩

end MuLang
