import MuLang.Proofs.Cursor
import MuLang.Proofs.Enclosure

/-!
# Readings item by item

A text whose braces match is a list of items. A reading that reports nothing goes through them one
after the other: a line is one statement, and a block is its head, then the items inside of it from
the scopes that the head has entered, and then its closing brace. So what holds of such a reading is
proved by induction on its items, and no block under way has to be kept in mind.
-/
namespace MuLang

/-- Whether a statement starts, after its modifiers, with a token of some kind. -/
def Token.startsWith (kind : Kind) (tokens : List Token) : Bool :=
  (afterModifiers tokens).head?.any (·.kind = kind)

/-- The kind of the block that is opened by a head and a brace. -/
def Token.openedKind (head : List Token) (opening : Token) : ScopeKind :=
  blockKind (head ++ [opening])

/-- Items lead from a session and the body under way to later ones. Every statement among them
succeeds. -/
inductive Item.Leads : Session → Body → List Item → Session → Body → Prop
  | nil {s : Session} {body : Body} : Leads s body [] s body
  | line {s t u : Session} {body after : Body} {items : List Item} {words : List Token}
      {stop : Token} {whole : Token.Unbroken words} {stops : stop.kind = .semicolon}
      {result : Option Stmt} : Step.closed (words ++ [stop]) s = (.ok result, t) →
      Leads t (body.add result) items u after →
      Leads s body (.line words stop whole stops :: items) u after
  | block {s t u v : Session} {body inside after : Body} {inner items : List Item}
      {head : List Token} {opening closing : Token} {whole : Token.Unbroken head}
      {opens : opening.kind = .openCurly} {closes : closing.kind = .closeCurly}
      {owner : Option Owner} {scopes : ScopeStack} :
      Step.owner body.chain (head ++ [opening]) s = (.ok owner, t) →
      Leads (t.inside s.scopes (Token.openedKind head opening)) {} inner u inside →
      u.scopes.popBlock? = some scopes →
      Leads { u with scopes }
        (body.close (owner.getD (.failed (Token.openedKind head opening))) inside.statements)
        items v after →
      Leads s body (.block head opening inner closing whole opens closes :: items) v after

/-- What is kept by a line before some items, and by a block before them whose items have it, holds
of all items. -/
@[elab_as_elim]
theorem Item.induction {motive : List Item → Prop} (nil : motive [])
    (line : ∀ (words : List Token) (stop : Token) (whole : Token.Unbroken words)
      (stops : stop.kind = .semicolon) (rest : List Item), motive rest →
      motive (.line words stop whole stops :: rest))
    (block : ∀ (head : List Token) (opening : Token) (inner : List Item) (closing : Token)
      (whole : Token.Unbroken head) (opens : opening.kind = .openCurly)
      (closes : closing.kind = .closeCurly) (rest : List Item), motive inner → motive rest →
      motive (.block head opening inner closing whole opens closes :: rest)) :
    ∀ items : List Item, motive items
  | [] => nil
  | .line words stop whole stops :: rest =>
    line words stop whole stops rest (Item.induction nil line block rest)
  | .block head opening inner closing whole opens closes :: rest =>
    block head opening inner closing whole opens closes rest (Item.induction nil line block inner)
      (Item.induction nil line block rest)

theorem Item.tokensOf_block {head : List Token} {opening closing : Token} {inner rest : List Item}
    {whole : Token.Unbroken head} {opens : opening.kind = .openCurly}
    {closes : closing.kind = .closeCurly} :
    tokensOf (.block head opening inner closing whole opens closes :: rest) =
      head ++ ([opening] ++ (tokensOf inner ++ ([closing] ++ tokensOf rest))) := by
  simp [tokensOf, tokens]

namespace Reading

variable {reading later last : Reading} {read more words : List Token} {token : Token}

/-! ## Readings of lists -/

/-- A reading of two texts is one of the first and then one of the second. -/
theorem Passes.split (h : reading.Passes (read ++ more) last) :
    ∃ later, reading.Passes read later ∧ later.Passes more last := by
  generalize hr : read ++ more = tokens at h
  induction h generalizing more with
  | start =>
    obtain ⟨rfl, rfl⟩ := List.append_eq_nil_iff.1 hr
    exact ⟨reading, .start, .start⟩
  | @token before point token hp hc hk ih =>
    rcases List.eq_nil_or_concat more with rfl | ⟨rest, last, rfl⟩
    · rw [List.append_nil] at hr
      subst hr
      exact ⟨_, .token hp hc hk, .start⟩
    · rw [List.concat_eq_append, ← List.append_assoc] at hr
      obtain ⟨hbefore, hlast⟩ := List.append_inj' hr rfl
      obtain rfl := List.singleton_inj.1 hlast
      obtain ⟨later, hl, hm⟩ := ih hbefore
      exact ⟨later, hl, List.concat_eq_append ▸ .token hm hc hk⟩

/-- A reading of one token. -/
theorem Passes.of_single (h : reading.Passes [token] later) : later = reading.step token := by
  generalize hr : [token] = tokens at h
  cases h with
  | start => cases hr
  | @token before point token hp =>
    obtain ⟨rfl, hlast⟩ := @List.append_inj' _ [] _ _ _ hr rfl
    obtain rfl := List.singleton_inj.1 hlast
    generalize hn : [] = tokens at hp
    cases hp with
    | start => rfl
    | token => simp at hn

theorem step_of_not_isBreak (hk : token.kind.isBreak = false) :
    reading.step token = { reading with current := reading.current ++ [token] } := by
  unfold step
  split <;> simp_all [Kind.isBreak]

/-- Words that end no statement are added to the statement under way. -/
theorem Passes.of_unbroken (h : reading.Passes words later) (hu : Token.Unbroken words) :
    later = { reading with current := reading.current ++ words } := by
  induction h with
  | start => rw [List.append_nil]
  | @token read later token _ _ _ ih =>
    obtain ⟨hr, ht⟩ := List.forall_mem_append.1 hu
    rw [step_of_not_isBreak (by simpa using ht), ih hr, List.append_assoc]

/-- Where the log is open, words that end no statement and no file can be read. -/
theorem passes_of_unbroken (hc : reading.session.log.isClosed = false) (hu : Token.Unbroken words) :
    reading.Passes words { reading with current := reading.current ++ words } := by
  induction words generalizing reading with
  | nil =>
    rw [List.append_nil]
    exact .start
  | cons token rest ih =>
    obtain ⟨ht, hr⟩ := List.forall_mem_cons.1 hu
    have hnoend : token.kind ≠ .endOfFile := fun he => by simp [he, Kind.isBreak] at ht
    have hfirst := Passes.single hc hnoend
    rw [step_of_not_isBreak ht] at hfirst
    have hrest := hfirst.trans (ih (by exact hc) hr)
    rwa [List.append_assoc] at hrest

/-! ## Items are read one after the other -/

/-- The innermost body is replaced by another one. -/
def withBody (reading : Reading) (body : Body) : Reading := reading.changeBody fun _ => body

@[simp] theorem session_withBody (reading : Reading) (body : Body) :
    (reading.withBody body).session = reading.session := session_changeBody _ _

@[simp] theorem current_withBody (reading : Reading) (body : Body) :
    (reading.withBody body).current = reading.current := current_changeBody _ _

@[simp] theorem body_withBody (reading : Reading) (body : Body) :
    (reading.withBody body).body = body := by
  rcases reading with ⟨session, program, _ | ⟨block, blocks⟩, current⟩ <;> rfl

@[simp] theorem withBody_withBody (reading : Reading) (body other : Body) :
    (reading.withBody body).withBody other = reading.withBody other := by
  rcases reading with ⟨session, program, _ | ⟨block, blocks⟩, current⟩ <;> rfl

theorem withBody_body (reading : Reading) : reading.withBody reading.body = reading := by
  rcases reading with ⟨session, program, _ | ⟨block, blocks⟩, current⟩ <;> rfl

theorem changeBody_eq_withBody (reading : Reading) (change : Body → Body) :
    reading.changeBody change = reading.withBody (change reading.body) := by
  rcases reading with ⟨session, program, _ | ⟨block, blocks⟩, current⟩ <;> rfl

theorem withSession_withBody (reading : Reading) (session : Session) (body : Body) :
    { reading.withBody body with session } = { reading with session }.withBody body := by
  rcases reading with ⟨_, program, _ | ⟨block, blocks⟩, current⟩ <;> rfl

theorem body_withSession (reading : Reading) (session : Session) :
    Reading.body { reading with session } = reading.body := by
  rcases reading with ⟨_, program, _ | ⟨block, blocks⟩, current⟩ <;> rfl

/-! ## What is read when a step succeeds -/

theorem endStatement_of_ok {tokens : List Token} {result : Option Stmt} {t : Session}
    (h : Step.closed tokens reading.session = (.ok result, t)) :
    reading.endStatement tokens =
      { reading with session := t }.withBody (reading.body.add result) := by
  rw [endStatement_eq, run_of_ok h, changeBody_eq_withBody, body_withSession]

theorem openBlock_of_ok {tokens : List Token} {owner : Option Owner} {t : Session}
    (h : Step.owner reading.body.chain tokens reading.session = (.ok owner, t)) :
    reading.openBlock tokens = { reading with
      session := t.inside reading.session.scopes (Token.blockKind tokens)
      blocks := (owner.getD (.failed (Token.blockKind tokens)), {}) :: reading.blocks } := by
  simp only [openBlock, run_of_ok h]
  rfl

theorem closeBlock_of_popBlock? {s : Session} {program body : Body} {owner : Owner}
    {blocks : List (Owner × Body)} {words : List Token} {scopes : ScopeStack} {brace : Token}
    (h : s.scopes.popBlock? = some scopes) :
    closeBlock ⟨s, program, (owner, body) :: blocks, words⟩ brace =
      withBody ⟨{ s with scopes }, program, blocks, words⟩
        ((innermost program blocks).close owner body.statements) := by
  simp only [closeBlock, h, changeScopes, changeBody_eq_withBody, body_eq]

/-- A reading of some items that reports nothing goes through them. -/
theorem leads_of_passes {items : List Item} (h : reading.Passes (Item.tokensOf items) later)
    (hn : reading.current = []) (hc : later.session.log.Clean) :
    ∃ t after, Item.Leads reading.session reading.body items t after ∧
      later = { reading with session := t }.withBody after := by
  induction items using Item.induction generalizing reading later with
  | nil =>
    rw [Item.tokensOf] at h
    obtain rfl := h.unique .start
    exact ⟨_, _, .nil, (withBody_body _).symm⟩
  | line words stop whole stops rest ih =>
    rcases reading with ⟨session, program, blocks, current⟩
    obtain rfl : current = [] := hn
    rw [Item.tokensOf, Item.tokens, List.append_assoc] at h
    obtain ⟨point, hwords, h⟩ := h.split
    obtain ⟨next, hstop, hrest⟩ := h.split
    obtain rfl := hwords.of_unbroken whole
    obtain rfl := hstop.of_single
    have hclean := hrest.extends_log.clean hc
    simp only [step, stops, List.nil_append] at hrest hclean
    obtain ⟨result, t, hr, he⟩ := endStatement_of_clean hclean
    rw [he, changeBody_eq_withBody] at hrest
    obtain ⟨u, after, hleads, rfl⟩ := ih hrest (current_withBody _ _) hc
    rw [session_withBody, body_withBody] at hleads
    refine ⟨u, after, .line hr hleads, ?_⟩
    rw [withSession_withBody, withBody_withBody]
  | block head opening inner closing whole opens closes rest ihi ih =>
    rcases reading with ⟨session, program, blocks, current⟩
    obtain rfl : current = [] := hn
    rw [Item.tokensOf_block] at h
    obtain ⟨point, hhead, h⟩ := h.split
    obtain ⟨opened, hopen, h⟩ := h.split
    obtain ⟨filled, hinner, h⟩ := h.split
    obtain ⟨closed, hclose, hrest⟩ := h.split
    obtain rfl := hhead.of_unbroken whole
    obtain rfl := hopen.of_single
    obtain rfl := hclose.of_single
    have hclosed := hrest.extends_log.clean hc
    have hfilled := (extends_step filled closing).clean hclosed
    have hopened := hinner.extends_log.clean hfilled
    simp only [step, opens, List.nil_append] at hinner hopened
    obtain ⟨owner, t, hr, he⟩ := openBlock_of_clean hopened
    rw [he] at hinner
    obtain ⟨u, inside, hleads, rfl⟩ := ihi hinner rfl hfilled
    obtain ⟨-, hstep⟩ := step_closeCurly_of_clean closes hclosed
    rw [hstep] at hrest hclosed
    obtain ⟨_, _, _, scopes, hblocks, hpop, hclose⟩ := closeBlock_of_clean hclosed
    cases hblocks
    rw [hclose, changeBody_eq_withBody] at hrest
    obtain ⟨v, after, hnext, rfl⟩ := ih hrest (current_withBody _ _) hc
    rw [session_withBody, body_withBody] at hnext
    refine ⟨v, after, .block hr hleads hpop hnext, ?_⟩
    rw [withSession_withBody, withBody_withBody]
    rfl

end Reading

theorem Session.frame_ext {s t : Session} (hp : t.pass = s.pass) (hs : t.settings = s.settings)
    (hb : t.scopes.bare = s.scopes.bare) : t.frame = s.frame := by
  rw [frame, hp, hs, hb, frame]

/-- With a block there is left what has been entered with it. -/
theorem ScopeStack.bare_of_popBlock? {base scopes rest : ScopeStack} {fresh : List Scope}
    {block : Owner × Body} (hk : base.kinds.head? ≠ some .loopHeader)
    (hb : scopes.bare = ⟨fresh ++ base.bare.nested, base.bare.outermost⟩)
    (hn : Nested (fresh.map (·.kind)) [block]) (hp : scopes.popBlock? = some rest) :
    rest.bare = base.bare := by
  obtain ⟨left, hleft, hnothing⟩ := @Reading.popBlock?_append base.bare (by rwa [kinds_bare]) fresh
    block [] hn
  generalize hl : left.map (·.kind) = kinds at hnothing
  cases hnothing
  obtain rfl := List.map_eq_nil_iff.1 hl
  have hpopped := bare_popBlock? scopes
  rw [hp, hb, hleft] at hpopped
  exact Option.some.inj hpopped

theorem Step.Opens.settings_eq {kind? : Option ScopeKind} {before after : Frame}
    (h : Opens kind? before after) : after.settings = before.settings := by
  cases h with
  | nothing => rfl
  | block _ he => cases he <;> rfl
  | loop _ he => cases he <;> rfl

/-- Inside of a block that has been opened there are fresh scopes of its own, and then those around
it. -/
theorem Step.frame_inside {s t : Session} {chain : Chain} {tokens : List Token}
    {owner : Option Owner} (h : Step.owner chain tokens s = (.ok owner, t)) :
    ∃ fresh : List Scope, (t.inside s.scopes (Token.blockKind tokens)).frame =
        { s.frame with scopes := ⟨fresh ++ s.scopes.bare.nested, s.scopes.bare.outermost⟩ } ∧
      Nested (fresh.map (·.kind)) [(.failed (Token.blockKind tokens), {})] := by
  have hk : Token.block? tokens ≠ some .loopHeader := fun hc => Step.block?_ne_loopHeader hc rfl
  have ho := (Step.commits_owner chain tokens).moved s
  rw [h] at ho
  obtain ⟨fresh, hfresh, hnested⟩ := ho.insideBlock hk
  refine ⟨fresh, ?_, by simpa using hnested _ .outside⟩
  have hbare : (t.inside s.scopes (Token.blockKind tokens)).scopes.bare =
      ⟨fresh ++ s.scopes.bare.nested, s.scopes.bare.outermost⟩ := by
    refine Eq.trans ?_ hfresh
    change (ScopeStack.insideBlock _ _ _).bare = _
    rw [ScopeStack.bare_insideBlock, ← s.scopes.size_bare]
    rfl
  have hpass : t.pass = s.pass := ho.pass_eq
  have hsettings : t.settings = s.settings := ho.settings_eq
  exact congr (congr (congrArg Frame.mk hpass) hsettings) hbare

/-- Inside of a block no header of a loop is left without its block. -/
theorem Step.head?_inside {s t : Session} {chain : Chain} {tokens : List Token}
    {owner : Option Owner} (h : Step.owner chain tokens s = (.ok owner, t)) :
    (t.inside s.scopes (Token.blockKind tokens)).scopes.kinds.head? ≠ some .loopHeader := by
  obtain ⟨fresh, hinside, hnested⟩ := Step.frame_inside h
  rw [← ScopeStack.kinds_bare, show ScopeStack.bare _ = _ from congrArg Frame.scopes hinside]
  cases fresh with
  | nil => cases hnested
  | cons scope rest => exact hnested.head?_ne

namespace Item.Leads

variable {s t : Session} {body after : Body} {items : List Item}

/-- Reports are only ever added. -/
theorem extends_log (h : Leads s body items t after) : s.log.Extends t.log := by
  induction h with
  | nil => exact .refl _
  | @line s _ _ _ _ _ words stop _ _ _ hr _ ih =>
    have hstep := (Step.commits_closed (words ++ [stop])).extends_log s
    rw [hr] at hstep
    exact hstep.trans ih
  | @block s _ _ _ body _ _ _ _ head opening _ _ _ _ _ _ hr _ _ _ ihi ih =>
    have hstep := (Step.commits_owner body.chain (head ++ [opening])).extends_log s
    rw [hr] at hstep
    exact (hstep.trans ihi).trans ih

/-- Where items lead to is where a reading of them gets. -/
theorem passes (h : Leads s body items t after) (hc : t.log.Clean) {reading : Reading}
    (hs : reading.session = s) (hb : reading.body = body) (hn : reading.current = []) :
    reading.Passes (tokensOf items) ({ reading with session := t }.withBody after) := by
  induction h generalizing reading with
  | nil =>
    subst hs hb
    rw [Reading.withBody_body]
    exact .start
  | @line s t u body after items words stop whole stops result hr hrest ih =>
    rcases reading with ⟨session, program, blocks, current⟩
    obtain rfl : current = [] := hn
    obtain rfl : session = s := hs
    have hline : Leads session body (.line words stop whole stops :: items) u after :=
      .line hr hrest
    have hopen := (hline.extends_log.clean hc).isClosed_eq
    have hwords := @Reading.passes_of_unbroken ⟨session, program, blocks, []⟩ words hopen whole
    have hnoend : stop.kind ≠ .endOfFile := by simp [stops]
    have hstop := hwords.token hopen hnoend
    rw [Reading.step] at hstop
    simp only [stops, List.nil_append] at hstop
    rw [Reading.endStatement_of_ok hr, hb] at hstop
    have hall := hstop.trans (ih hc (Reading.session_withBody _ _) (Reading.body_withBody _ _)
      (by rw [Reading.current_withBody]))
    rw [tokensOf, tokens]
    rwa [Reading.withSession_withBody, Reading.withBody_withBody] at hall
  | @block s t u v body inside after inner items head opening closing whole opens closes owner
      scopes hr hinner hpop hrest ihi ih =>
    rcases reading with ⟨session, program, blocks, current⟩
    obtain rfl : current = [] := hn
    obtain rfl : session = s := hs
    have hblock : Leads session body
      (.block head opening inner closing whole opens closes :: items) v after :=
      .block hr hinner hpop hrest
    have hopen := (hblock.extends_log.clean hc).isClosed_eq
    have hu := hrest.extends_log.clean hc
    have ht := hinner.extends_log.clean hu
    have hhead := @Reading.passes_of_unbroken ⟨session, program, blocks, []⟩ head hopen whole
    have hopened : opening.kind ≠ .endOfFile := by simp [opens]
    have hopening := hhead.token hopen hopened
    rw [Reading.step] at hopening
    simp only [opens, List.nil_append] at hopening
    subst hb
    rw [Reading.openBlock_of_ok hr] at hopening
    have hinside := hopening.trans (ihi hu rfl rfl rfl)
    have hclosed : closing.kind ≠ .endOfFile := by simp [closes]
    have hclosing := hinside.token (by simpa using hu.isClosed_eq) hclosed
    rw [Reading.step] at hclosing
    simp only [closes] at hclosing
    change Reading.Passes _ _ (Reading.closeBlock ⟨u, program, (_, inside) :: blocks, []⟩ closing)
      at hclosing
    rw [Reading.closeBlock_of_popBlock? hpop, ← Reading.body_eq ⟨session, program, blocks, []⟩]
      at hclosing
    have hall := hclosing.trans (ih hc (Reading.session_withBody _ _) (Reading.body_withBody _ _)
      (by rw [Reading.current_withBody]))
    rw [tokensOf_block]
    rw [Reading.withSession_withBody, Reading.withBody_withBody] at hall
    simpa only [List.append_assoc] using hall

/-- Between two items the scopes are those around them, whatever has been declared there. -/
theorem frame_eq (h : Leads s body items t after) (hk : s.scopes.kinds.head? ≠ some .loopHeader) :
    t.frame = s.frame := by
  induction h with
  | nil => rfl
  | @line s t _ _ _ _ words stop _ _ _ hr _ ih =>
    have hf := (Step.commits_closed (words ++ [stop])).moved s
    rw [hr] at hf
    have hkinds : t.scopes.kinds = s.scopes.kinds := by
      rw [← Reading.kinds_frame, ← hf, Reading.kinds_frame]
    exact (ih (hkinds ▸ hk)).trans hf.symm
  | @block s t u v _ _ _ _ _ _ _ _ _ _ _ _ scopes hr _ hpop _ ihi ih =>
    obtain ⟨fresh, hinside, hnested⟩ := Step.frame_inside hr
    have hu := (ihi (Step.head?_inside hr)).trans hinside
    have hbare := ScopeStack.bare_of_popBlock? hk (congrArg Frame.scopes hu) hnested hpop
    have hleft : Session.frame { u with scopes } = s.frame :=
      Session.frame_ext (congrArg Frame.pass hu) (congrArg Frame.settings hu) hbare
    refine (ih ?_).trans hleft
    rwa [← Reading.kinds_frame, hleft, Reading.kinds_frame]

end Item.Leads

/-! ## Whole passes -/

namespace Session

variable {session t : Session} {pass : Pass} {tokens : List Token} {items : List Item}
  {after : Body}

/-- Where a pass over some items reports nothing, they lead to where it ends. -/
theorem leads_of_readPass (hread : tokens.takeWhile (·.kind ≠ .endOfFile) = Item.tokensOf items)
    (hc : (session.readPass pass tokens).1.log.Clean) :
    ∃ after, Item.Leads (Reading.start session pass).session {} items
        (session.readPass pass tokens).1 after ∧
      (session.readPass pass tokens).2 = after.statements := by
  obtain ⟨hfinish, -, -⟩ := Reading.finish_of_clean hc
  replace hc : ((Reading.start session pass).steps tokens).session.log.Clean := hfinish ▸ hc
  have hpasses := Reading.passes_steps_of_open hc.isClosed_eq
  rw [hread] at hpasses
  obtain ⟨t, after, hleads, hlast⟩ := Reading.leads_of_passes hpasses rfl hc
  refine ⟨after, ?_, ?_⟩
  · rw [readPass, hfinish, hlast, Reading.session_withBody]
    exact hleads
  · rw [readPass, hfinish, hlast]
    rfl

/-- Where the items of a text lead to without a report is where a pass over the text ends. -/
theorem readPass_of_leads (hread : tokens.takeWhile (·.kind ≠ .endOfFile) = Item.tokensOf items)
    (h : Item.Leads (Reading.start session pass).session {} items t after) (hc : t.log.Clean) :
    session.readPass pass tokens = (t, after.statements) := by
  have hpasses := @Item.Leads.passes _ _ _ _ _ h hc (Reading.start session pass) rfl rfl rfl
  rw [← hread] at hpasses
  have hsteps := hpasses.steps_append (tokens.dropWhile (·.kind ≠ .endOfFile))
  rw [List.takeWhile_append_dropWhile] at hsteps
  have hend (reading : Reading) :
      reading.steps (tokens.dropWhile (·.kind ≠ .endOfFile)) = reading := by
    cases hd : tokens.dropWhile (·.kind ≠ .endOfFile) with
    | nil => rfl
    | cons token rest =>
      have hk : token.kind = .endOfFile := by
        have hhead := List.head?_dropWhile_not (·.kind ≠ .endOfFile) tokens
        rw [hd] at hhead
        simpa using hhead
      rw [Reading.steps, if_pos (by simp [hk])]
  rw [readPass, hsteps, hend]
  rfl

end Session

/-- A program that is parsed without an error is that to which the items of its text lead. -/
theorem exists_leads_of_parse {settings : Settings} {tokens : List Token} {program : List Stmt}
    (hb : settings.maxErrors ≠ some 0) (h : parse settings tokens = (some program, [])) :
    ∃ items t chain, tokens.takeWhile (·.kind ≠ .endOfFile) = Item.tokensOf items ∧ t.log.Clean ∧
      Item.Leads (Reading.start (Session.skim settings tokens) .evaluate).session {} items t
        ⟨program, chain⟩ := by
  obtain ⟨-, hclean, hblocks, hcurrent, hprogram⟩ := evaluated_of_parse hb h
  have hpasses := Reading.passes_steps_of_open hclean.isClosed_eq
  obtain ⟨before, hread, hcovered⟩ := Reading.faithful_of_passes hpasses hclean
  rw [hcurrent, List.append_nil] at hread
  rw [hblocks] at hcovered
  generalize hs : (Reading.start (Session.skim settings tokens) .evaluate).steps tokens = second
    at *
  cases hcovered with
  | @outside items _ =>
    rw [hread] at hpasses
    obtain ⟨t, after, hleads, rfl⟩ := Reading.leads_of_passes hpasses rfl hclean
    rw [Reading.session_withBody] at hclean
    refine ⟨items, t, after.chain, hread, hclean, ?_⟩
    rw [← hprogram]
    exact hleads

end MuLang
