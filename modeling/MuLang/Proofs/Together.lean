import MuLang.Proofs.Clean

/-!
# Both passes over a program

The passes go over the tokens together. At every point the scopes of the second pass are those of
its site, block by block, everything that it has built so far is sound, and the first pass has
registered the modules and functions of it, in the same order, and knows of no other globals.
-/
namespace MuLang

/-! ## Open blocks and their scopes -/

/-- Every open block stands at a site where it may be opened, and its scopes are those of the site
inside it. -/
inductive Layered (program : List Stmt) : ScopeStack → List (Owner × Body) → Prop
  | outside {scopes : ScopeStack} : (View.ofBlocks program []).site.Matches scopes →
      Layered program scopes []
  | block {scopes rest : ScopeStack} {owner : Owner} {body : Body} {blocks : List (Owner × Body)} :
      scopes.popBlock? = some rest → Layered program rest blocks →
      owner.Opened (View.ofBlocks program blocks).site →
      (View.ofBlocks program ((owner, body) :: blocks)).site.Matches scopes →
      Layered program scopes ((owner, body) :: blocks)

namespace Layered

variable {program : List Stmt} {scopes later : ScopeStack} {blocks : List (Owner × Body)}
  {owner : Owner} {body : Body}

theorem matched (h : Layered program scopes blocks) :
    (View.ofBlocks program blocks).site.Matches scopes := by
  cases h with
  | outside hm => exact hm
  | block _ _ _ hm => exact hm

/-- Marking a local as initialized does not matter, wherever it is declared. -/
theorem congr (h : Layered program scopes blocks) (hu : later.unmarked = scopes.unmarked) :
    Layered program later blocks := by
  induction h generalizing later with
  | outside hm => exact .outside (hm.congr hu)
  | block hp _ ho hm ih =>
    have ha := ScopeStack.around_congr hu
    rw [hp] at ha
    obtain ⟨rest, hr, hrest⟩ := Option.map_eq_some_iff.1 ha
    exact .block hr (ih hrest) ho (hm.congr hu)

/-- A block may be opened at the innermost site. -/
theorem enter (h : Layered program scopes blocks)
    (ho : owner.Opened (View.ofBlocks program blocks).site)
    (ha : later.popBlock?.map ScopeStack.unmarked = some scopes.unmarked)
    (hm : ((View.ofBlocks program blocks).site.within owner).Matches later) :
    Layered program later ((owner, {}) :: blocks) := by
  obtain ⟨rest, hr, hu⟩ := Option.map_eq_some_iff.1 ha
  exact .block hr (h.congr hu) ho hm

/-- When a block is left, the scopes are those of the site around it. -/
theorem leave {rest : ScopeStack} (h : Layered program scopes ((owner, body) :: blocks))
    (hp : scopes.popBlock? = some rest) :
    Layered program rest blocks ∧ owner.Opened (View.ofBlocks program blocks).site := by
  cases h with
  | block hr hl ho _ =>
    obtain rfl := Option.some.inj (hp.symm.trans hr)
    exact ⟨hl, ho⟩

end Layered

namespace Reading

/-- The open blocks of a reading and its scopes. -/
def Layers (reading : Reading) : Prop :=
  Layered reading.program.statements reading.session.scopes reading.blocks

variable {reading : Reading}

/-- In the innermost block something may be added as long as its scopes are those of the site
then. -/
theorem Layers.changeBody {session : Session} {change : Body → Body} (h : reading.Layers)
    (hm : (reading.base.extend (change reading.body).statements).site.Matches session.scopes)
    (ha : session.scopes.popBlock?.map ScopeStack.unmarked =
      reading.session.scopes.popBlock?.map ScopeStack.unmarked) :
    ({ reading with session }.changeBody change).Layers := by
  rcases reading with ⟨before, program, _ | ⟨⟨owner, body⟩, blocks⟩, current⟩
  · exact .outside hm
  · cases h with
    | block hp hl ho _ =>
      dsimp only at ha
      rw [hp] at ha
      obtain ⟨rest, hr, hu⟩ := Option.map_eq_some_iff.1 ha
      exact .block hr (hl.congr hu) ho hm

theorem view_changeBody (reading : Reading) (change : Body → Body) :
    (reading.changeBody change).view = reading.base.extend (change reading.body).statements := by
  rw [view_eq, base_changeBody, body_changeBody]

/-! ## Both passes at one point -/

/-- What both passes have found out at corresponding points, where the second one looks names up in
an environment. -/
structure Together (env : Env) (first second : Reading) : Prop where
  current_eq : first.current = second.current
  alike : first.session.Alike second.session
  rooted : first.session.Rooted
  env_eq : second.session.env = env
  balanced : second.Balanced
  layers : second.Layers
  chained : second.body.chain ≠ .closed → second.view.site.function.isSome
  declared : second.view.site.Declared second.view.outline
  sound : AllSound env second.view.outline second.view.uses
  skeleton_eq : first.session.table.skeleton =
    second.view.outline.foldl Declaration.register SymbolTable.empty.skeleton
  justified : first.session.Justified second.view.outline
  hasGlobal : ∀ p name, Declaration.HaveGlobal second.view.outline p name →
    env.table.HasGlobal p name
  wellTyped : ∀ declaration ∈ second.view.outline, declaration.WellTyped

variable {env : Env} {first second first' second' : Reading}

/-- Over some declarations both passes go on together, if the second one stays in order. -/
theorem Together.advance {declarations : List Declaration} (h : Together env first second)
    (ha : Session.Agrees declarations first.session second.session first'.session second'.session)
    (hcurrent : first'.current = second'.current) (hbalanced : second'.Balanced)
    (hlayers : second'.Layers)
    (houtline : second'.view.outline = second.view.outline ++ declarations)
    (hchained : second'.body.chain ≠ .closed → second'.view.site.function.isSome)
    (hdeclared : second'.view.site.Declared second'.view.outline)
    (hsound : AllSound env second'.view.outline second'.view.uses) :
    Together env first' second' where
  current_eq := hcurrent
  alike := ha.alike
  rooted := ha.rooted
  env_eq := ha.env_eq.trans h.env_eq
  balanced := hbalanced
  layers := hlayers
  chained := hchained
  declared := hdeclared
  sound := hsound
  skeleton_eq := by rw [ha.skeleton_eq, h.skeleton_eq, houtline, List.foldl_append]
  justified := houtline ▸ ha.justified _ h.justified
  hasGlobal p name hg := by
    rw [houtline, Declaration.haveGlobal_append] at hg
    obtain hg | hg := hg
    · exact h.hasGlobal p name hg
    · rw [← h.env_eq]
      exact ha.hasGlobal p name hg
  wellTyped := by
    rw [houtline]
    exact List.forall_mem_append.2 ⟨h.wellTyped, ha.wellTyped⟩

/-! ## One token -/

variable {tokens : List Token} {token : Token}

theorem Together.table_eq (h : Together env first second) : second.session.table = env.table :=
  congrArg Env.table h.env_eq

theorem together_endStatement (h : Together env first second)
    (hf : (first.endStatement tokens).session.log.Clean)
    (hs : (second.endStatement tokens).session.log.Clean)
    (hsettled : (first.endStatement tokens).session.Settled env.table) :
    Together env (first.endStatement tokens) (second.endStatement tokens) := by
  have hbalanced := balanced_endStatement second h.balanced tokens
  obtain ⟨skimmed, s, hskim, hfirst⟩ := endStatement_of_clean hf
  obtain ⟨result, e, hevaluate, hsecond⟩ := endStatement_of_clean hs
  rw [hfirst, session_changeBody] at hsettled
  rw [hsecond] at hbalanced
  rw [hfirst, hsecond]
  have hagrees := Step.agrees_closed h.alike h.rooted h.layers.matched
    (h.table_eq.symm ▸ hsettled) hskim hevaluate
  have hreads := Step.reads_closed h.alike.evaluating h.layers.matched h.declared hevaluate
  rw [h.env_eq] at hreads
  have hview : ({ second with session := e }.changeBody (·.add result)).view =
      second.view.extend result.toList := by
    rw [view_changeBody, Body.add, View.extend_append, view_eq]
    rfl
  have hmatched : (second.base.extend (second.body.add result).statements).site.Matches
      e.scopes := by
    rw [Body.add, View.extend_append, ← view_eq]
    exact hreads.matched
  refine h.advance (by simpa using hagrees) (by simpa using h.current_eq) hbalanced
    (Layers.changeBody h.layers hmatched hreads.around) (by rw [hview]; rfl) ?_ ?_ ?_
  · rw [body_changeBody]
    exact fun hc => absurd rfl hc
  · rw [hview]
    exact h.declared.of_eq (Site.module_afterAll _ _) (Site.function_afterAll _ _)
      (List.subset_append_left _ _)
  · rw [hview]
    exact (h.sound.append hreads.sound).mono (List.subset_append_left _ _)

theorem together_openBlock (h : Together env first second)
    (hf : (first.openBlock tokens).session.log.Clean)
    (hs : (second.openBlock tokens).session.log.Clean)
    (hsettled : (first.openBlock tokens).session.Settled env.table) :
    Together env (first.openBlock tokens) (second.openBlock tokens) := by
  have hbalanced := balanced_openBlock second h.balanced tokens
  obtain ⟨skimmed, s, hskim, hfirst⟩ := openBlock_of_clean hf
  obtain ⟨result, e, hevaluate, hsecond⟩ := openBlock_of_clean hs
  rw [hsecond] at hbalanced
  have hclean : s.log.Clean := by
    rw [hfirst] at hf
    exact hf
  have hdefined : s.Settled second.session.table := by
    rw [hfirst] at hsettled
    exact h.table_eq.symm ▸ ⟨hsettled.contains, hsettled.hasGlobal, hsettled.deferred⟩
  rw [hfirst, hsecond]
  have hk : second.session.scopes.kinds.head? ≠ some .loopHeader := Nested.head?_ne h.balanced
  obtain ⟨owner, rfl, hagrees⟩ := Step.agrees_owner h.alike h.rooted h.layers.matched hk h.chained
    hdefined hclean hskim hevaluate
  obtain ⟨_, hr, hstarts⟩ := Step.starts_owner second.view.outline
    h.alike.evaluating h.layers.matched hk h.chained hevaluate
  obtain rfl := Option.some.inj hr
  rw [h.env_eq] at hstarts
  have hview : View.ofBlocks second.program.statements ((owner, {}) :: second.blocks) =
      second.view.enter owner := View.extend_nil _
  refine h.advance hagrees h.current_eq hbalanced
    (Layered.enter h.layers hstarts.opened hstarts.around hstarts.matched)
    (congrArg View.outline hview) (fun hc => absurd rfl hc) ?_ ?_
  · rw [Option.getD_some, view, hview]
    exact hstarts.opened.declared_within h.declared
  · rw [Option.getD_some, view, hview]
    exact (h.sound.append hstarts.sound).mono (List.subset_append_left _ _)

theorem together_closeBlock (h : Together env first second)
    (hf : (first.closeBlock token).session.log.Clean)
    (hs : (second.closeBlock token).session.log.Clean) :
    Together env (first.closeBlock token) (second.closeBlock token) := by
  have hbalanced := balanced_closeBlock second h.balanced token
  obtain ⟨_, _, _, skimmed, -, hskim, hfirst⟩ := closeBlock_of_clean hf
  obtain ⟨owner, body, blocks, scopes, hblocks, hpop, hsecond⟩ := closeBlock_of_clean hs
  rw [hsecond] at hbalanced
  rw [hfirst, hsecond]
  have hlayers := h.layers
  rw [Layers, hblocks] at hlayers
  obtain ⟨hl, ho⟩ := hlayers.leave hpop
  let outer : Reading := { second with session := { second.session with scopes }, blocks }
  have hagrees : Session.Agrees [] first.session second.session
      { first.session with scopes := skimmed } outer.session := by
    have hbare : skimmed.bare = scopes.bare := by
      have hb := ScopeStack.bare_popBlock? first.session.scopes
      rw [h.alike.bare_eq, ← ScopeStack.bare_popBlock?, hskim, hpop] at hb
      exact Option.some.inj hb
    have ha := h.alike
    refine ⟨⟨ha.skimming, ha.evaluating, ha.settings_eq, hbare, ha.stdlib_eq⟩,
      ⟨fun p hp => ?_, h.rooted.deferred⟩, rfl,
      fun _ hj => hj.congr (fun _ _ => rfl) rfl (List.subset_append_left _ _), rfl,
      by simp [Declaration.HaveGlobal], by simp⟩
    exact h.rooted.scopes p (ScopeStack.mem_modules_of_popBlock? hskim hp)
  have hinner : second.view = (outer.view.enter owner).extend body.statements := by
    rw [view, hblocks]
    rfl
  have hopened : owner.Opened (outer.base.extend outer.body.statements).site := by
    rw [← view_eq]
    exact ho
  have hcloses := View.closes_close outer.base body.statements hopened
  rw [← view_eq, ← hinner, ← view_changeBody outer (·.close owner body.statements)] at hcloses
  refine h.advance (by simpa using hagrees) (by simpa using h.current_eq) hbalanced ?_ ?_ ?_ ?_ ?_
  · refine @Layers.changeBody outer outer.session _ hl ?_ rfl
    rw [← view_changeBody outer (·.close owner body.statements), hcloses.site_eq]
    exact hl.matched
  · rw [List.append_nil]
    exact hcloses.outline_eq
  · rw [body_changeBody, hcloses.site_eq]
    exact View.function_of_close ho
  · rw [hcloses.site_eq, hcloses.outline_eq]
    intro header hh
    have hin := ho.within_eq (Option.isSome_iff_exists.2 ⟨header, hh⟩)
    have hsite : second.view.site =
        ((View.ofBlocks second.program.statements blocks).site.within owner).afterAll
          body.statements := congrArg View.site hinner
    have hd := h.declared header
    rw [hsite, Site.function_afterAll, hin.2, Site.module_afterAll, hin.1] at hd
    exact hd hh
  · rw [hcloses.outline_eq]
    exact fun use hu => h.sound use (hcloses.uses_subset hu)

/-- One token leads both passes to corresponding points. -/
theorem together_step (h : Together env first second)
    (hf : (first.step token).session.log.Clean) (hs : (second.step token).session.log.Clean)
    (hsettled : (first.step token).session.Settled env.table) :
    Together env (first.step token) (second.step token) := by
  by_cases hbrace : token.kind = .closeCurly
  · obtain ⟨-, hfirst⟩ := step_closeCurly_of_clean hbrace hf
    obtain ⟨-, hsecond⟩ := step_closeCurly_of_clean hbrace hs
    rw [hfirst] at hf ⊢
    rw [hsecond] at hs ⊢
    exact together_closeBlock h hf hs
  · have hstart : Together env { first with current := [] } { second with current := [] } :=
      { h with current_eq := rfl }
    unfold step at hf hs hsettled ⊢
    split
    next hk =>
      simp only [hk, h.current_eq] at hf hs hsettled ⊢
      exact together_endStatement hstart hf hs hsettled
    next hk =>
      simp only [hk, h.current_eq] at hf hs hsettled ⊢
      exact together_openBlock hstart hf hs hsettled
    next hk => exact absurd hk hbrace
    next => exact { h with current_eq := congrArg (· ++ [token]) h.current_eq }

/-- Both passes go over the program together. -/
theorem together_steps (tokens : List Token) (h : Together env first second)
    (hf : (first.steps tokens).session.log.Clean) (hs : (second.steps tokens).session.log.Clean)
    (hsettled : (first.steps tokens).session.Settled env.table) :
    Together env (first.steps tokens) (second.steps tokens) := by
  induction tokens generalizing first second with
  | nil => exact h
  | cons token rest ih =>
    have hclosed : first.session.log.isClosed = second.session.log.isClosed := by
      rw [((extends_steps first _).clean hf).isClosed_eq, ((extends_steps second _).clean hs).isClosed_eq]
    unfold steps at hf hs hsettled ⊢
    rw [hclosed] at hf hsettled ⊢
    split
    next hstop => exact h
    next hstop =>
      rw [if_neg hstop] at hf hs hsettled
      refine ih ?_ hf hs hsettled
      exact together_step h ((extends_steps _ rest).clean hf) ((extends_steps _ rest).clean hs)
        ((grows_steps _ rest).settled hsettled)

end Reading

end MuLang
