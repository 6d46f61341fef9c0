import MuLang.Proofs.Sound

/-!
# Heads of blocks that are accepted

The head of a block that the second pass accepts opens a block which it may open at its site. Inside
the block the scopes are those of the site there, and around it they are what they were.
-/
namespace MuLang

/-- The head of a block has been read between a point of the block around and the first point inside
the new one. -/
structure Starts (env : Env) (outline : List Declaration) (site : Site) (before : ScopeStack)
    (owner : Owner) (after : ScopeStack) : Prop where
  opened : owner.Opened site
  sound : AllSound env outline (owner.uses site)
  entered : after.bare = (owner.entered before).bare
  matched : (site.within owner).Matches after
  around : after.popBlock?.map ScopeStack.unmarked = some before.unmarked

namespace Owner

variable {site : Site} {owner : Owner} {outline : List Declaration}

/-- Control flow stays in its function. -/
theorem Opened.within_eq (h : owner.Opened site) (hf : site.function.isSome) :
    (site.within owner).module = site.module ∧ (site.within owner).function = site.function := by
  cases h with
  | module hn => simp [hn] at hf
  | function hn => simp [hn] at hf
  | forLoop => exact ⟨site.module_declare _, site.function_declare _⟩
  | _ => exact ⟨rfl, rfl⟩

/-- The function around the start of a block is declared by then. -/
theorem Opened.declared_within (h : owner.Opened site) (hd : site.Declared outline) :
    (site.within owner).Declared (outline ++ owner.declarations site) := by
  have control (hf : site.function.isSome) :
      (site.within owner).Declared (outline ++ owner.declarations site) :=
    hd.of_eq (h.within_eq hf).1 (h.within_eq hf).2 (List.subset_append_left _ _)
  cases h with
  | module hn => simp [Site.Declared, Site.within, Site.inside, Site.inModule]
  | function hn =>
    rintro header ⟨⟩
    simp [declarations, Site.declarationsIn, hn, Stmt.declarationsIn, Stmt.declarations,
      Site.within, Site.inside, Site.inFunction]
  | ifElse hf => exact control hf
  | whileLoop hf => exact control hf
  | forLoop hf => exact control hf
  | elseIf hf => exact control hf
  | otherwise hf => exact control hf

end Owner

namespace ScopeStack

variable {before after : ScopeStack} {scope : Scope} {kind : ScopeKind}

theorem around_enter (hk : before.kinds.head? ≠ some .loopHeader)
    (h : after.unmarked = (before.enter scope).unmarked) :
    after.popBlock?.map unmarked = some before.unmarked := by
  rw [around_congr h, popBlock?_enter _ hk]
  rfl

/-- A block whose scope has been entered gets no other one. -/
theorem insideBlock_of_entered (hs : before.size < after.size) (hk : after.currentKind = kind) :
    after.insideBlock before.size kind = after := by
  rw [insideBlock, if_neg]
  rintro (h | h)
  · omega
  · exact h hk

theorem insideBlock_of_enter (h : after.bare = before.bare.enter scope) (hk : scope.kind = kind) :
    after.insideBlock before.size kind = after := by
  refine insideBlock_of_entered ?_ ?_
  · rw [← size_bare after, h, size_enter, size_bare]
    omega
  · rw [← currentKind_bare after, h, currentKind_enter, hk]

theorem insideBlock_of_push (h : after.unmarked = (before.push kind).unmarked) :
    after.insideBlock before.size kind = after := by
  refine @insideBlock_of_enter _ _ ⟨kind, before.currentModule, [], none⟩ kind ?_ rfl
  rw [bare_eq_of_unmarked_eq h]
  rfl

end ScopeStack

namespace Step

variable {env : Env} {outline : List Declaration} {site : Site} {s t : Session}

theorem starts_module {tokens modifiers : List Token} {result : Option Stmt}
    (hs : s.isSkimming = false) (hm : site.Matches s.scopes)
    (hk : s.scopes.kinds.head? ≠ some .loopHeader)
    (h : moduleStatement tokens modifiers s = (.ok result, t)) :
    ∃ stmt, result = some stmt ∧ t.scopes.insideBlock s.scopes.size .module = t.scopes ∧
      Starts env outline site s.scopes (.statement stmt) t.scopes := by
  obtain ⟨identifier, -, hp, hr, rfl⟩ := moduleStatement_ok h
  rw [hs] at hr
  have hf : site.function = none := hm.outside hp
  exact ⟨_, hr, ScopeStack.insideBlock_of_enter (ScopeStack.bare_pushIn _ _ _) rfl, .module hf,
    .nil, rfl, hm.pushIn hf _, ScopeStack.around_enter hk rfl⟩

theorem starts_function {tokens modifiers : List Token} {result : Option Stmt}
    (hs : s.isSkimming = false) (hm : site.Matches s.scopes)
    (hk : s.scopes.kinds.head? ≠ some .loopHeader)
    (h : functionStatement tokens modifiers s = (.ok result, t)) :
    ∃ stmt, result = some stmt ∧ t.scopes.insideBlock s.scopes.size .function = t.scopes ∧
      Starts env outline site s.scopes (.statement stmt) t.scopes := by
  obtain ⟨signature, definition, hh, hg, hd, rfl, hp⟩ := evaluate_functionStatement hs h
  have hv : (signature.header modifiers).TakesValues := Signature.takesValues_of_ofTokens hh
  have hf := function_of_admitsGlobals hm hg
  obtain ⟨scopes, rfl, hb, ho, hi⟩ := matches_function hm hv hd hp
  refine ⟨_, rfl, ?_, .function hf, .nil, ?_, hi, ?_⟩
  · exact ScopeStack.insideBlock_of_enter (hb.trans (ScopeStack.bare_pushFunction _ _)) rfl
  · rw [hb, Owner.entered, hd]
    rfl
  · dsimp only
    rw [ho]
    exact ScopeStack.around_enter hk rfl

/-! ## Control flow -/

/-- A condition is typed inside the scope of its block. -/
theorem sound_condition {kind : ScopeKind} {tokens : List Token} {keyword : Token} {value : Expr}
    {scopes : ScopeStack} (hm : site.Matches s.scopes) (hf : kind ≠ .function)
    (hp : kind ≠ .program) (ho : kind ≠ .module)
    (h : s.env.expression tokens keyword (s.scopes.push kind) = (.ok value, scopes))
    (hb : value.type = .bool) :
    (Use.condition value).Sound s.env outline site ∧
      scopes.unmarked = (s.scopes.push kind).unmarked ∧ site.Matches scopes := by
  have hpush := hm.push hf hp ho
  obtain ⟨hr, hu⟩ := Env.resolves_of_expression hpush h
  exact ⟨⟨hr, hb, _, hpush, (Env.typed_of_expression h).1⟩, hu, hpush.congr hu⟩

variable (outline) in
theorem starts_if {tokens modifiers : List Token} {result : Option (Token × Expr)}
    (hs : s.isSkimming = false) (hm : site.Matches s.scopes)
    (hk : s.scopes.kinds.head? ≠ some .loopHeader)
    (h : ifStatement tokens modifiers s = (.ok result, t)) :
    ∃ keyword condition, result = some (keyword, condition) ∧ t = { s with scopes := t.scopes } ∧
      t.scopes.insideBlock s.scopes.size .ifBlock = t.scopes ∧
      Starts s.env outline site s.scopes (.statement (.ifElse keyword condition [] .absent))
        t.scopes ∧
      Starts s.env outline site s.scopes (.elseIf keyword condition) t.scopes := by
  obtain ⟨hi, keyword, value, scopes, rfl, hx, hb, rfl⟩ := evaluate_ifStatement hs h
  have hf := isSome_function hm hi
  obtain ⟨hsound, hu, hin⟩ := sound_condition hm (by decide) (by decide) (by decide) hx hb
  have ha := ScopeStack.around_enter hk hu
  have hall : AllSound s.env outline [(site, .condition value)] := .cons hsound .nil
  exact ⟨keyword, value, rfl, rfl, ScopeStack.insideBlock_of_push hu,
    ⟨.ifElse hf, hall, ScopeStack.bare_eq_of_unmarked_eq hu, hin, ha⟩,
    ⟨.elseIf hf, hall, ScopeStack.bare_eq_of_unmarked_eq hu, hin, ha⟩⟩

variable (outline) in
theorem starts_while {tokens modifiers : List Token} {result : Option Stmt}
    (hs : s.isSkimming = false) (hm : site.Matches s.scopes)
    (hk : s.scopes.kinds.head? ≠ some .loopHeader)
    (h : whileStatement tokens modifiers s = (.ok result, t)) :
    ∃ keyword condition, result = some (.whileLoop keyword condition []) ∧
      t = { s with scopes := t.scopes } ∧
      t.scopes.insideBlock s.scopes.size .whileBlock = t.scopes ∧
      Starts s.env outline site s.scopes (.statement (.whileLoop keyword condition []))
        t.scopes := by
  obtain ⟨hi, keyword, value, scopes, rfl, hx, hb, rfl⟩ := evaluate_whileStatement hs h
  have hf := isSome_function hm hi
  obtain ⟨hsound, hu, hin⟩ := sound_condition hm (by decide) (by decide) (by decide) hx hb
  exact ⟨keyword, value, rfl, rfl, ScopeStack.insideBlock_of_push hu, .whileLoop hf, .cons hsound .nil,
    ScopeStack.bare_eq_of_unmarked_eq hu, hin, ScopeStack.around_enter hk hu⟩

variable (outline) in
/-- The variable of a loop is a local of the header, around the block. -/
theorem starts_for {tokens modifiers : List Token} {result : Option Stmt}
    (hs : s.isSkimming = false) (hm : site.Matches s.scopes)
    (h : forStatement tokens modifiers s = (.ok result, t)) :
    ∃ keyword header value condition action,
      result = some (.forLoop keyword header value condition action []) ∧
      t = { s with scopes := t.scopes } ∧
      t.scopes.insideBlock s.scopes.size .forBlock = t.scopes ∧
      Starts s.env outline site s.scopes
        (.statement (.forLoop keyword header value condition action [])) t.scopes := by
  obtain ⟨hi, keyword, init, test, step, h⟩ := forStatement_ok h
  have hf := isSome_function hm hi
  have hpush : site.Matches (s.scopes.push .loopHeader) := hm.push (by simp) (by simp) (by simp)
  obtain ⟨header, value, condition, action, declared, tested, acted, hv, hx, hb, ha, rfl, rfl, -⟩ :=
    evaluate_loopStatement (by exact hs) h
  obtain ⟨_, _, scopes, hr, hu, hvalue, ⟨hn, -⟩ | ⟨-, v, extended, hn, hk, hadd, rfl⟩⟩ :=
    evaluate_variable outline (by exact hs) hpush hv
  · rw [hn] at hf
    cases hf
  cases hr
  dsimp only at hx ha hu
  have hdeclared : (site.declare header).Matches extended := (hpush.congr hu).addLocal hf hn hk hadd
  obtain ⟨hcondition, htested⟩ := Env.resolves_of_expression hdeclared hx
  obtain ⟨hctyped, -⟩ := Env.typed_of_expression hx
  obtain ⟨haction, hacted⟩ := sound_of_acts outline (hdeclared.congr htested) ha
  have hmatched := (hdeclared.congr htested).congr hacted
  -- Of the scopes around the loop nothing has changed but what has a value.
  have hpop : acted.pop.unmarked = s.scopes.unmarked := by
    have hin : scopes.inFunction := (hpush.congr hu).inFunction_eq.trans hf
    rw [ScopeStack.unmarked_pop, hacted, htested, ← ScopeStack.unmarked_pop,
      ScopeStack.pop_of_addLocal hin hadd, ScopeStack.unmarked_pop, hu]
    rfl
  have hbare : acted.bare = (s.scopes.push .loopHeader).bare := by
    rw [ScopeStack.bare_eq_of_unmarked_eq hacted, ScopeStack.bare_eq_of_unmarked_eq htested,
      ScopeStack.bare_of_addLocal hadd, ScopeStack.bare_eq_of_unmarked_eq hu]
  have hkind : acted.currentKind = .loopHeader := by
    rw [← ScopeStack.currentKind_bare, hbare]
    rfl
  have hsize : s.scopes.size < (acted.push .forBlock).size := by
    rw [ScopeStack.push, ScopeStack.size_enter, ← ScopeStack.size_bare acted, hbare,
      ScopeStack.size_bare]
    exact Nat.lt_succ_of_lt (Nat.lt_succ_self _)
  refine ⟨_, _, _, _, _, rfl, rfl, ScopeStack.insideBlock_of_entered hsize rfl, .forLoop hf, ?_, ?_,
    hmatched.push (by decide) (by decide) (by decide), ?_⟩
  · exact .cons (hvalue value rfl) (.cons ⟨hcondition, hb, _, hdeclared, hctyped⟩ (.cons haction .nil))
  · rw [ScopeStack.bare_push, hbare]
    rfl
  · dsimp only
    rw [ScopeStack.push, ScopeStack.popBlock?_enter_loop _ hkind, Option.map_some, hpop]

/-! ## Any head -/

theorem starts_else {chain : Chain} {tokens modifiers : List Token} {result : Option Owner}
    (hs : s.isSkimming = false) (hm : site.Matches s.scopes)
    (hk : s.scopes.kinds.head? ≠ some .loopHeader)
    (hc : chain ≠ .closed → site.function.isSome)
    (h : elseOwner chain tokens modifiers s = (.ok result, t)) :
    ∃ owner, result = some owner ∧ Starts s.env outline site s.scopes owner
      (t.scopes.insideBlock s.scopes.size .ifBlock) := by
  obtain ⟨hn, next, -, ⟨-, rfl, rfl⟩ | ⟨-, head, hi, rfl⟩⟩ := elseOwner_ok h
  · have hf := hc hn
    refine ⟨_, rfl, ?_⟩
    rw [ScopeStack.insideBlock, if_pos (.inl rfl)]
    exact ⟨.otherwise hf, .nil, rfl, hm.push (by decide) (by decide) (by decide),
      ScopeStack.around_enter hk rfl⟩
  · obtain ⟨keyword, condition, rfl, -, hb, -, hstarts⟩ := starts_if outline hs hm hk hi
    exact ⟨_, rfl, hb.symm ▸ hstarts⟩

variable (outline) in
theorem starts_statement {kind : ScopeKind} {step : Step (Option Stmt)} {result : Option Stmt}
    (hs : s.isSkimming = false) (hm : site.Matches s.scopes)
    (hk : s.scopes.kinds.head? ≠ some .loopHeader) (hr : HeadReader kind step)
    (h : step s = (.ok result, t)) :
    ∃ stmt, result = some stmt ∧ t.scopes.insideBlock s.scopes.size kind = t.scopes ∧
      Starts s.env outline site s.scopes (.statement stmt) t.scopes := by
  cases hr with
  | module => exact starts_module hs hm hk h
  | function => exact starts_function hs hm hk h
  | ifElse =>
    obtain ⟨head, hi, rfl⟩ := Fallible.map_eq_ok.1 h
    obtain ⟨keyword, condition, rfl, -, hb, hstarts, -⟩ := starts_if outline hs hm hk hi
    exact ⟨_, rfl, hb, hstarts⟩
  | whileLoop =>
    obtain ⟨keyword, condition, rfl, -, hb, hstarts⟩ := starts_while outline hs hm hk h
    exact ⟨_, rfl, hb, hstarts⟩
  | forLoop =>
    obtain ⟨keyword, header, value, condition, action, rfl, -, hb, hstarts⟩ := starts_for outline hs hm h
    exact ⟨_, rfl, hb, hstarts⟩
  | fails hf => exact absurd h (hf _ _ _)

variable (outline) in
/-- Whatever an opening brace ends opens a block if the second pass accepts it. -/
theorem starts_owner {chain : Chain} {tokens : List Token} {result : Option Owner}
    (hs : s.isSkimming = false) (hm : site.Matches s.scopes)
    (hk : s.scopes.kinds.head? ≠ some .loopHeader)
    (hc : chain ≠ .closed → site.function.isSome)
    (h : owner chain tokens s = (.ok result, t)) :
    ∃ owner, result = some owner ∧ Starts s.env outline site s.scopes owner
      (t.scopes.insideBlock s.scopes.size ((Token.block? tokens).getD .ifBlock)) := by
  obtain ⟨hkind, _, _, he⟩ | ⟨step, read, hr, hread, rfl⟩ := owner_eq_ok rfl h
  · rw [hkind]
    exact starts_else hs hm hk hc he
  · obtain ⟨stmt, rfl, hb, hstarts⟩ := starts_statement outline hs hm hk hr hread
    exact ⟨_, rfl, hb.symm ▸ hstarts⟩

end Step

end MuLang
