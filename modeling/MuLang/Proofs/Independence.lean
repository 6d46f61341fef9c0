import MuLang.Proofs.Agreement
import MuLang.Proofs.Confinement
import MuLang.Proofs.Relaxation
import MuLang.Proofs.Variation

/-!
# The body of a function and the rest of its program

What stands between the braces of one function has no influence on what is made of the rest of the
program, and on what is reported there, as long as the first pass finds nothing wrong.
-/
namespace MuLang

/-! ## Programs that differ in one statement -/

/-- Statements that are the same but for one of them, which may be inside of modules. -/
inductive Stmt.Replaced (first second : Stmt) : List Stmt → List Stmt → Prop
  | here (before after : List Stmt) :
      Replaced first second (before ++ first :: after) (before ++ second :: after)
  | module (before after : List Stmt) (identifier : Token) {inner other : List Stmt} :
      Replaced first second inner other → Replaced first second
        (before ++ .module identifier inner :: after) (before ++ .module identifier other :: after)

theorem Stmt.contextual_replaced (first second : Stmt) : Contextual (Replaced first second) where
  append {xs ys} more h := by
    cases h with
    | here before after =>
      simp only [List.append_assoc, List.cons_append]
      exact .here _ _
    | module before after identifier h =>
      simp only [List.append_assoc, List.cons_append]
      exact .module _ _ _ h
  module before identifier h := .module before [] identifier h

/-- A function that is closed adds itself with its body, and a faulty one nothing. -/
theorem Owner.exists_close {owner : Owner} (h : owner.kind = .function) :
    ∃ header, ∀ (parent : Body) (inner other : List Stmt),
      parent.close owner inner = parent.close owner other ∨ (parent.close owner inner).Varies
        (Stmt.Replaced (.function header inner) (.function header other))
        (parent.close owner other) := by
  cases owner with
  | statement stmt =>
    cases stmt with
    | function header body =>
      refine ⟨header, fun parent inner other => .inr ⟨_, _, {}, .here parent.statements [], nofun,
        ?_, ?_⟩⟩ <;> simp [Body.close, Body.after, Stmt.withBody, Stmt.isIf]
    | _ => cases h
  | failed kind => exact ⟨default, fun _ _ _ => .inl rfl⟩
  | _ => cases h

theorem Owner.encloses_of_kind {owner : Owner} (h : owner.kind = .module) : owner.Encloses := by
  cases owner with
  | statement stmt =>
    cases stmt with
    | module => trivial
    | _ => cases h
  | failed kind => trivial
  | _ => cases h

/-- In the first pass a function has no statement yet. -/
theorem Step.owner_function_of_skim {chain : Chain} {tokens : List Token} {owner : Option Owner}
    {s t : Session} (hs : s.isSkimming) (h : Step.owner chain tokens s = (.ok owner, t))
    (hk : Token.blockKind tokens = .function) : owner = none := by
  rw [(owner_of_blockKind chain tokens).2 hk] at h
  obtain ⟨result, hread, rfl⟩ := Fallible.map_eq_ok.1 h
  simp [functionStatement, hs, and_assoc] at hread
  obtain ⟨-, -, -, -, -, -, -, -, rfl⟩ := hread
  rfl

/-- A log that is clean is as it has always been. -/
theorem Log.Clean.eq_of_extends {log later : Log} (h : later.Clean) (he : log.Extends later) :
    later = log := by
  have herrors := (he.clean h).errors_eq.trans h.errors_eq.symm
  have hlimit := he.limit_eq
  cases log
  cases later
  simp_all

namespace Reading

variable {before body after tokens more : List Token} {opening closing : Token}
  {reading opened later : Reading}

/-! ## The first pass -/

theorem clean_of_steps_append (h : (reading.steps (tokens ++ more)).session.log.Clean)
    (hk : ∀ token ∈ tokens, token.kind ≠ .endOfFile) :
    (reading.steps tokens).session.log.Clean ∧ reading.Passes tokens (reading.steps tokens) := by
  rw [steps_append hk] at h
  have hc := (extends_steps _ more).clean h
  exact ⟨hc, passes_steps_of_ongoing hc.isClosed_eq hk⟩

/-- Where the first pass reads the body of a function and finds nothing wrong, it declares nothing
in it that could be seen outside. -/
theorem confined_of_clean (hm : Token.Matched body)
    (hf : ∀ word ∈ body, word.kind ≠ .keyword .finishWord)
    (hk : ∀ token ∈ before ++ body, token.kind ≠ .endOfFile) {session : Session}
    (h : ((start session .skim).steps (before ++ body)).session.log.Clean) :
    Token.Confined before body := by
  refine ⟨hm, fun read hread => ?_, hf⟩
  obtain ⟨rest, rfl⟩ := hread
  rw [← List.append_assoc] at h hk
  obtain ⟨hc, hp⟩ := clean_of_steps_append h fun token ht => hk token (List.mem_append_left _ ht)
  exact strata_of_passes hp hc

/-- A brace opens the block of the words before it. -/
theorem step_openCurly (reading : Reading) (hk : opening.kind = .openCurly) :
    let head := reading.current ++ [opening]
    (reading.step opening).blocks = (Step.ownerOr (Token.blockKind head)
        (Step.owner reading.body.chain head reading.session).1, {}) :: reading.blocks ∧
      (reading.step opening).program = reading.program := by
  dsimp only
  unfold step
  simp only [hk]
  rw [openBlock_eq]
  exact ⟨rfl, rfl⟩

/-- The first pass goes on behind a function in the same way whatever its body is. -/
theorem skim_closing {session : Session} (ho : Token.Opens before) (hb : Token.Confined before body)
    (hp : (start session .skim).Passes before opened) (hblock : opened.Passes body later)
    {outer : List (Owner × Body)} (hblocks : opened.blocks = (.failed .function, {}) :: outer)
    (hk : closing.kind = .closeCurly) (hc : (later.step closing).session.log.Clean) :
    later.step closing = opened.step closing ∧ (Token.cursor (before ++ body)).words = [] := by
  have hat : opened.At (Token.cursor before) := at_of_passes (at_start session .skim) hp
  obtain ⟨hcurrent, -⟩ := step_closeCurly_of_clean hk hc
  have hw : ((Token.cursor before).move body).words = [] :=
    (at_of_passes hat hblock).current_eq.symm.trans hcurrent
  have hnone : Token.Confined before [] :=
    ⟨Token.matched_nil, fun read hr => hb.strata read (hr.trans (List.nil_prefix)), by simp⟩
  obtain ⟨scopes, hpop, hstep⟩ := step_closing ho hb hat (tidy_of_passes hp) hblocks hblock
    (tidy_of_passes (hp.trans hblock)) hw hk
  obtain ⟨scopes', hpop', hstep'⟩ := step_closing ho hnone hat (tidy_of_passes hp) hblocks .start
    (tidy_of_passes hp) ho.words_eq hk
  obtain rfl : scopes = scopes' := Option.some.inj (hpop.symm.trans hpop')
  have hlater : later.session.log.Clean := (extends_step later closing).clean hc
  have hlog : later.session.log = opened.session.log :=
    Log.Clean.eq_of_extends hlater hblock.extends_log
  refine ⟨?_, by rwa [Token.cursor, Token.Cursor.move_append]⟩
  rw [hstep, hstep', hlog]
  rfl

/-- What block a brace opens is told by the words before it. -/
theorem blockKind_head {place : Token.Cursor} {kind : ScopeKind} (h : reading.At place)
    (hk : opening.kind = .openCurly) (hb : Token.block? place.words = some kind) :
    Token.blockKind (reading.current ++ [opening]) = kind := by
  rw [Token.blockKind, Token.block?_opening _ hk, h.current_eq, hb]
  rfl

/-- In a first pass that finds nothing wrong, what is read behind a function is read as if there
were nothing between its braces. -/
theorem skim_around {session : Session} (hopening : opening.kind = .openCurly)
    (hclosing : closing.kind = .closeCurly)
    (hf : Token.block? (Token.cursor before).words = some .function) (hm : Token.Matched body)
    (hfinish : ∀ word ∈ body, word.kind ≠ .keyword .finishWord)
    (hk : ∀ token ∈ before ++ body, token.kind ≠ .endOfFile)
    (hc : ((start session .skim).steps
      (before ++ [opening] ++ (body ++ closing :: after))).session.log.Clean) :
    Token.Opens (before ++ [opening]) ∧ Token.Confined (before ++ [opening]) body ∧
      (Token.cursor (before ++ [opening] ++ body)).words = [] ∧
      (start session .skim).steps (before ++ [opening] ++ (body ++ closing :: after)) =
        (((start session .skim).steps (before ++ [opening])).step closing).steps after := by
  have hhead : ∀ token ∈ before ++ [opening], token.kind ≠ .endOfFile := by
    intro token ht
    obtain ht | ht := List.mem_append.1 ht
    · exact hk token (List.mem_append_left _ ht)
    · rw [List.mem_singleton.1 ht, hopening]
      simp
  have hbody : ∀ token ∈ body, token.kind ≠ .endOfFile :=
    fun token ht => hk token (List.mem_append_right _ ht)
  have hwhole := List.forall_mem_append.2 ⟨hhead, hbody⟩
  -- The points at both braces.
  obtain ⟨hbefore, hpbefore⟩ := clean_of_steps_append (by simpa using hc)
    fun token ht => hk token (List.mem_append_left _ ht)
  obtain ⟨hopened, hp⟩ := clean_of_steps_append hc hhead
  obtain ⟨hlater, hplater⟩ := clean_of_steps_append (by rwa [List.append_assoc]) hwhole
  have hstep : (start session .skim).steps (before ++ [opening]) =
      ((start session .skim).steps before).step opening := by
    rw [hpbefore.steps_append, steps, if_neg, steps]
    simp [hbefore.isClosed_eq, hopening]
  rw [steps_append hhead, steps_append hbody] at hc
  rw [steps_append hhead] at hlater
  have hblock := passes_steps_of_ongoing hlater.isClosed_eq hbody
  have hclose : (((start session .skim).steps (before ++ [opening])).steps body).steps
      (closing :: after) = ((((start session .skim).steps (before ++ [opening])).steps body).step
        closing).steps after := by
    rw [steps, if_neg]
    simp [hlater.isClosed_eq, hclosing]
  rw [hclose] at hc
  have hat : ((start session .skim).steps before).At (Token.cursor before) :=
    at_of_passes (at_start session .skim) hpbefore
  have ho : Token.Opens (before ++ [opening]) :=
    .of_strata hopening hf (strata_of_passes hp hopened)
  have hb := confined_of_clean hm hfinish hwhole (steps_append hhead ▸ hlater)
  obtain ⟨outer, hblocks⟩ : ∃ outer, ((start session .skim).steps (before ++ [opening])).blocks =
      (.failed .function, {}) :: outer := by
    rw [hstep] at hopened ⊢
    obtain ⟨hblocks, -⟩ := step_openCurly ((start session .skim).steps before) hopening
    have hkind := blockKind_head hat hopening hf
    unfold step at hopened
    simp only [hopening] at hopened
    obtain ⟨owner, entered, howner, -⟩ := openBlock_of_clean hopened
    obtain rfl := Step.owner_function_of_skim (hpbefore.isSkimming_eq.trans rfl) howner hkind
    have hr : (Step.owner ((start session .skim).steps before).body.chain _
      ((start session .skim).steps before).session).1 = .ok none := congrArg Prod.fst howner
    refine ⟨((start session .skim).steps before).blocks, ?_⟩
    rw [hblocks, hr, hkind]
    rfl
  obtain ⟨hclosed, hw⟩ := skim_closing ho hb hp hblock hblocks hclosing
    ((extends_steps _ after).clean hc)
  refine ⟨ho, hb, hw, ?_⟩
  rw [steps_append hhead, steps_append hbody, hclose, hclosed]

/-! ## The second pass -/

/-- A pass that starts without an error never meets a fault of its own. -/
theorem external_of_passes {session : Session} {pass : Pass} (he : session.log.errors = [])
    (hp : (start session pass).Passes tokens later) :
    ∀ error ∈ later.session.log.errors, ¬error.isInternal := by
  have hs : (start session pass).Reports [] :=
    ⟨fun error hm => absurd (he ▸ hm) List.not_mem_nil, fun _ => by simp [start, he],
      fun _ => by simp [start, he]⟩
  exact (reports_of_passes hp hs (balanced_start _ _) rfl).external

theorem isClosed_of_unlimited {session : Session} {pass : Pass} (he : session.log.errors = [])
    (hl : session.log.limit = none) (hp : (start session pass).Passes tokens later) :
    later.session.log.isClosed = false := by
  have hlimit := hp.extends_log.limit_eq.trans hl
  have hexternal := external_of_passes he hp
  simpa [Log.isClosed, Log.isExhausted, Log.hasInternal, hlimit] using hexternal

/-- Without a budget a pass reads everything. -/
theorem passes_of_unlimited {session : Session} (pass : Pass) (he : session.log.errors = [])
    (hl : session.log.limit = none) (hk : ∀ token ∈ tokens, token.kind ≠ .endOfFile) :
    (start session pass).Passes tokens ((start session pass).steps tokens) := by
  refine passes_steps_of_ongoing ?_ hk
  obtain ⟨read, rest, -, hp, -⟩ := exists_passes_steps (start session pass) tokens
  exact isClosed_of_unlimited he hl hp

/-- In the second pass both braces of a function are read, and what stands between them and behind
them. -/
theorem evaluate_around {session : Session} (he : session.log.errors = [])
    (hl : session.log.limit = none) (hclosing : closing.kind = .closeCurly)
    (hk : ∀ token ∈ before ++ body, token.kind ≠ .endOfFile) :
    let opened := (start session .evaluate).steps before
    opened.Passes body (opened.steps body) ∧
      (start session .evaluate).steps (before ++ (body ++ closing :: after)) =
        ((opened.steps body).step closing).steps after := by
  intro opened
  have hbefore : ∀ token ∈ before, token.kind ≠ .endOfFile :=
    fun token ht => hk token (List.mem_append_left _ ht)
  have hp := passes_of_unlimited .evaluate he hl hk
  rw [steps_append hbefore] at hp
  have hopen := isClosed_of_unlimited he hl hp
  refine ⟨passes_steps_of_ongoing hopen fun token ht => hk token (List.mem_append_right _ ht), ?_⟩
  rw [steps_append hbefore, steps_append fun token ht => hk token (List.mem_append_right _ ht),
    steps, if_neg (by simp [hopen, hclosing])]

/-- In the second pass a function is closed inside of modules, with the statements between its
braces. -/
theorem evaluate_closing {session : Session} (he : session.log.errors = [])
    (hl : session.log.limit = none) (hopening : opening.kind = .openCurly)
    (hclosing : closing.kind = .closeCurly)
    (ho : Token.Opens (before ++ [opening])) (hb : Token.Confined (before ++ [opening]) body)
    (hw : (Token.cursor (before ++ [opening] ++ body)).words = [])
    (hk : ∀ token ∈ before ++ [opening] ++ body, token.kind ≠ .endOfFile) :
    let opened := (start session .evaluate).steps (before ++ [opening])
    let later := opened.steps body
    ∃ owner outer scopes, opened.blocks = (owner, {}) :: outer ∧ owner.kind = .function ∧
      (∀ block ∈ outer, block.1.Encloses) ∧ opened.session.scopes.popBlock? = some scopes ∧
      later.step closing = ({ opened with
        session := { opened.session with scopes, log := later.session.log }
        blocks := outer }).changeBody (·.close owner later.body.statements) := by
  intro opened later
  have hhead : ∀ token ∈ before ++ [opening], token.kind ≠ .endOfFile :=
    fun token ht => hk token (List.mem_append_left _ ht)
  have hpbefore := passes_of_unlimited .evaluate he hl
    fun token ht => hhead token (List.mem_append_left _ ht)
  have hp : (start session .evaluate).Passes (before ++ [opening]) opened :=
    passes_of_unlimited .evaluate he hl hhead
  obtain ⟨hblock, -⟩ := @evaluate_around _ _ [] closing _ he hl hclosing hk
  have hat : opened.At (Token.cursor (before ++ [opening])) :=
    at_of_passes (at_start session .evaluate) hp
  have hstep : opened = ((start session .evaluate).steps before).step opening := by
    change (start session .evaluate).steps (before ++ [opening]) = _
    rw [hpbefore.steps_append, steps, if_neg, steps]
    simp [isClosed_of_unlimited he hl hpbefore, hopening]
  obtain ⟨owner, outer, hblocks⟩ : ∃ owner outer, opened.blocks = (owner, {}) :: outer := by
    rw [hstep]
    exact ⟨_, _, (step_openCurly _ hopening).1⟩
  -- The kinds of the blocks are those of their heads.
  obtain ⟨head, heads, hheads, hfunction, hmodules⟩ := ho.function
  have hkinds := (definable_of_passes hp).kinds.symm.trans hat.blockKinds_eq
  rw [hblocks, hheads, List.map_cons, List.map_cons, List.cons.injEq, hfunction] at hkinds
  have houter : ∀ block ∈ outer, block.1.Encloses := by
    intro block hm
    obtain ⟨head, hhead, hk⟩ := List.mem_map.1 (hkinds.2 ▸ List.mem_map_of_mem hm)
    exact Owner.encloses_of_kind (hk.symm.trans (hmodules head hhead))
  obtain ⟨scopes, hpop, hclose⟩ := step_closing ho hb hat (tidy_of_passes hp) hblocks hblock
    (tidy_of_passes (hp.trans hblock)) (by rwa [Token.cursor, Token.Cursor.move_append] at hw)
    hclosing
  exact ⟨owner, outer, scopes, hblocks, hkinds.1, houter, hpop, hclose⟩

end Reading

/-- Sessions of the second pass that are the same but for what has been reported before. -/
def Likeness.reported (early others : List Error) : Likeness :=
  ⟨.evaluate, Eq, False, early, others⟩

theorem Likeness.lawful_reported (early others : List Error) : (reported early others).Lawful where
  register := by
    rintro table _ entry rfl
    rfl
  answers := by
    rintro - table _ rfl
    exact SymbolTable.Answers.refl table

namespace Reading

variable {settings : Settings} {before body tokens more : List Token} {opening : Token}

/-- Behind a function two readings are alike that differ in its body alone. -/
theorem twin_closing {owner : Owner} {outer : List (Owner × Body)} {scopes : ScopeStack}
    {first second : Log} {opened : Reading} (hs : opened.session.pass = .evaluate)
    (hf : first.limit = none) (hl : second.limit = none) (ho : owner.kind = .function)
    (hm : ∀ block ∈ outer, block.1.Encloses) (inner other : List Stmt) :
    ∃ header, Twin (.reported first.errors second.errors)
      (Stmt.Replaced (.function header inner) (.function header other))
      (({ opened with
        session := { opened.session with scopes, log := first }
        blocks := outer }).changeBody (·.close owner inner))
      (({ opened with
        session := { opened.session with scopes, log := second }
        blocks := outer }).changeBody (·.close owner other)) := by
  obtain ⟨header, hclose⟩ := owner.exists_close ho
  refine ⟨header, ?_⟩
  have hsession : Session.Twin (.reported first.errors second.errors)
      { opened.session with scopes, log := first } { opened.session with scopes, log := second } :=
    ⟨hs, hs, rfl, rfl, rfl, .inr rfl, False.elim, ⟨hf, hl⟩, [], by simp [Likeness.reported]⟩
  exact @Twin.of_parts _ _ { opened with blocks := outer } _ _ hsession hm _ _
    fun parent => hclose parent inner other

/-- The second pass ends where the first one does, which has found nothing wrong. -/
theorem finished_of_skim (hl : settings.maxErrors = none)
    (h : (Session.skim settings tokens).log.errors = []) :
    let second := (start (Session.skim settings tokens) .evaluate).steps tokens
    (start (Session.skim settings tokens) .evaluate).Passes
        (tokens.takeWhile (·.kind ≠ .endOfFile)) second ∧
      second.blocks = [] ∧ second.current = [] := by
  intro second
  have hlimit := (Session.limit_skim settings tokens).trans hl
  obtain ⟨-, hblocks, hcurrent, hfirst⟩ := Session.skim_of_clean
    (Log.clean_of_errors h (by simp [hlimit]))
  have hp := passes_steps_of_open hfirst.isClosed_eq
  obtain ⟨read, rest, -, hread, -⟩ :=
    exists_passes_steps (start (Session.skim settings tokens) .evaluate) tokens
  have hsecond := passes_steps_of_open (isClosed_of_unlimited h hlimit hread)
  refine ⟨hsecond, List.length_eq_zero_iff.1 ?_, ?_⟩
  · rw [hsecond.length_eq rfl, ← hp.length_eq rfl, hblocks]
    rfl
  · rw [(at_of_passes (at_start _ _) hsecond).current_eq,
      ← (at_of_passes (at_start _ _) hp).current_eq, hcurrent]

/-- What the second pass makes of a program in which the first one has found nothing wrong. -/
theorem parse_of_skim (hl : settings.maxErrors = none)
    (h : (Session.skim settings tokens).log.errors = []) :
    let second := (start (Session.skim settings tokens) .evaluate).steps tokens
    parse settings tokens = (some second.program.statements, second.session.log.errors) := by
  intro second
  obtain ⟨-, hblocks, hcurrent⟩ := finished_of_skim hl h
  have hfinish : second.finish tokens = second := finish_of_finished hblocks hcurrent tokens
  unfold parse
  simp only [h, List.isEmpty_nil, if_true]
  unfold Session.readPass
  simp only
  rw [hfinish]

/-- The file does not end between braces if nothing wrong is found. -/
theorem no_end_of_skim (hopening : opening.kind = .openCurly) (hm : Token.Matched body)
    (hbefore : ∀ token ∈ before, token.kind ≠ .endOfFile)
    (h : (Session.skim settings (before ++ [opening] ++ (body ++ more))).log.Clean) :
    ∀ token ∈ body, token.kind ≠ .endOfFile := by
  obtain ⟨-, hblocks, -, hfirst⟩ := Session.skim_of_clean h
  have hhead : ∀ token ∈ before ++ [opening], token.kind ≠ .endOfFile :=
    List.forall_mem_append.2 ⟨hbefore, by simp [hopening]⟩
  obtain ⟨-, hopened⟩ := clean_of_steps_append hfirst hhead
  rw [steps_append hhead] at hblocks hfirst
  generalize (start (.initial settings) .skim).steps (before ++ [opening]) = opened
    at hblocks hfirst hopened
  obtain ⟨read, rest, rfl, hp, hn⟩ := exists_passes_steps opened body
  rw [List.append_assoc, hp.steps_append] at hblocks hfirst
  cases rest with
  | nil => simpa using hp.no_end
  | cons next rest =>
    have hclean := (extends_steps _ _).clean hfirst
    have hend := (hn next rfl).resolve_left (by simp [hclean.isClosed_eq])
    rw [List.cons_append, steps, if_pos (by simp [hend])] at hblocks
    -- The block is still open there.
    have hlength := (hopened.trans hp).length_eq rfl
    have hcursor := Token.Cursor.length_move {} (before ++ [opening] ++ read)
    change _ = Token.depth _ at hcursor
    obtain ⟨inner, hi, -⟩ := @Token.Cursor.exists_inner read [] (Token.cursor (before ++ [opening]))
      _ rfl (Token.strays_of_isPrefix (List.prefix_append _ _) (hm 0).2)
    rw [hblocks, ← hcursor, Token.Cursor.move_append] at hlength
    change [].length = ((Token.cursor (before ++ [opening])).move read).heads.length at hlength
    rw [hi, Token.cursor, Token.Cursor.move_append, Token.Cursor.move_cons,
      Token.Cursor.next_openCurly hopening] at hlength
    simp at hlength

/-- Readings that are alike in the second pass are alike at the end of the text. -/
theorem Twin.steps_evaluate {R : List Stmt → List Stmt → Prop} {early others : List Error}
    {first second : Reading} (hR : Stmt.Contextual R)
    (h : Twin (.reported early others) R first second)
    (he : ∀ error ∈ early, ¬error.isInternal) (ho : ∀ error ∈ others, ¬error.isInternal)
    (hc : (first.steps tokens).session.log.isClosed = false)
    (hc' : (second.steps tokens).session.log.isClosed = false) :
    Twin (.reported early others) R (first.steps tokens) (second.steps tokens) := by
  have hpermits {read : List Token} {point : Reading} (hp : first.Passes read point)
      (token : Token) : Permits (.reported early others) point token := by
    refine ⟨fun _ hskim => ?_, False.elim⟩
    rw [(settings_of_passes hp).2, h.session.pass_eq] at hskim
    cases hskim
  obtain ⟨last, hlast, hlater⟩ := h.of_passes (Likeness.lawful_reported _ _) hR he ho
    (passes_steps_of_open hc) fun _ hp => hpermits hp _
  rwa [hlast.unique (passes_steps_of_open hc')] at hlater

/-- The second pass over two programs that differ between the braces of one function. -/
theorem twin_around {session : Session} {other after : List Token} {closing : Token}
    (he : session.log.errors = []) (hl : session.log.limit = none)
    (hopening : opening.kind = .openCurly) (hclosing : closing.kind = .closeCurly)
    (ho : Token.Opens (before ++ [opening]))
    (hb : Token.Confined (before ++ [opening]) body)
    (hb' : Token.Confined (before ++ [opening]) other)
    (hw : (Token.cursor (before ++ [opening] ++ body)).words = [])
    (hw' : (Token.cursor (before ++ [opening] ++ other)).words = [])
    (hk : ∀ token ∈ before ++ [opening] ++ body, token.kind ≠ .endOfFile)
    (hk' : ∀ token ∈ before ++ [opening] ++ other, token.kind ≠ .endOfFile) :
    let start := start session .evaluate
    let opened := start.steps (before ++ [opening])
    let inner := opened.steps body
    let inner' := opened.steps other
    opened.Passes body inner ∧ opened.Passes other inner' ∧
    ∃ header, Twin (.reported inner.session.log.errors inner'.session.log.errors)
      (Stmt.Replaced (.function header inner.body.statements)
        (.function header inner'.body.statements))
      (start.steps (before ++ [opening] ++ (body ++ closing :: after)))
      (start.steps (before ++ [opening] ++ (other ++ closing :: after))) := by
  intro start opened inner inner'
  have hp : start.Passes (before ++ [opening]) opened :=
    passes_of_unlimited .evaluate he hl fun token ht => hk token (List.mem_append_left _ ht)
  obtain ⟨hbody, hend⟩ := @evaluate_around _ _ after _ _ he hl hclosing hk
  obtain ⟨hother, hend'⟩ := @evaluate_around _ _ after _ _ he hl hclosing hk'
  -- At their closing braces both functions are closed in the same surroundings.
  obtain ⟨owner, outer, scopes, hblocks, hkind, houter, hpop, hclose⟩ :=
    evaluate_closing he hl hopening hclosing ho hb hw hk
  obtain ⟨owner', outer', scopes', hblocks', -, -, hpop', hclose'⟩ :=
    evaluate_closing he hl hopening hclosing ho hb' hw' hk'
  obtain ⟨howner, rfl⟩ := List.cons.inj (hblocks.symm.trans hblocks')
  obtain rfl := (Prod.mk.inj howner).1
  obtain rfl := Option.some.inj (hpop.symm.trans hpop')
  have hlimit := (hp.trans hbody).extends_log.limit_eq.trans hl
  have hlimit' := (hp.trans hother).extends_log.limit_eq.trans hl
  obtain ⟨header, htwin⟩ := @twin_closing owner outer scopes inner.session.log inner'.session.log
    opened (settings_of_passes hp).2 hlimit hlimit' hkind houter inner.body.statements
    inner'.body.statements
  rw [← hclose, ← hclose'] at htwin
  -- From there on they are read alike.
  refine ⟨hbody, hother, header, ?_⟩
  have hopen (tokens : List Token) : (start.steps tokens).session.log.isClosed = false := by
    obtain ⟨read, rest, -, hread, -⟩ := exists_passes_steps start tokens
    exact isClosed_of_unlimited he hl hread
  rw [hend, hend']
  exact htwin.steps_evaluate (Stmt.contextual_replaced _ _) (external_of_passes he (hp.trans hbody))
    (external_of_passes he (hp.trans hother)) (hend ▸ hopen _) (hend' ▸ hopen _)

/-- Where all blocks are closed, programs that vary are the same or related. -/
theorem Twin.statements {like : Likeness} {R : List Stmt → List Stmt → Prop}
    {first second : Reading}
    (hR : Stmt.Contextual R) (h : Twin like R first second) (hb : first.blocks = []) :
    first.program.statements = second.program.statements ∨
      R first.program.statements second.program.statements := by
  have hv := h.varied
  rw [hb] at hv
  generalize first.program = program, hs : ([] : List (Owner × Body)) = blocks,
    second.program = other, second.blocks = others at hv
  cases hv with
  | same => exact .inl rfl
  | program _ hb => exact .inr (hb.related hR)
  | block inner => cases inner <;> cases hs

end Reading

/-! ## The rest of a program -/

/-- If two programs differ only between the braces of one function, and the first pass finds nothing
wrong in them, then it finds out the same about both. The second pass reports the same before the
function's opening brace and after its closing one, and builds the same statements but for the body
of the function, which holds what it has built between the braces. -/
theorem parse_independent_of_body {settings : Settings} {before body other after : List Token}
    {opening closing : Token} (hl : settings.maxErrors = none)
    (hopening : opening.kind = .openCurly) (hclosing : closing.kind = .closeCurly)
    (hf : Token.block? (Token.cursor before).words = some .function)
    (hbefore : ∀ token ∈ before, token.kind ≠ .endOfFile)
    (hbody : Token.Matched body) (hother : Token.Matched other)
    (hfinish : ∀ word ∈ body ++ other, word.kind ≠ .keyword .finishWord)
    (h : (Session.skim settings
      (before ++ [opening] ++ (body ++ closing :: after))).log.errors = [])
    (h' : (Session.skim settings
      (before ++ [opening] ++ (other ++ closing :: after))).log.errors = []) :
    let skimmed := Session.skim settings (before ++ [opening] ++ (body ++ closing :: after))
    let opened := (Reading.start skimmed .evaluate).steps (before ++ [opening])
    let inner := opened.steps body
    let inner' := opened.steps other
    Session.skim settings (before ++ [opening] ++ (other ++ closing :: after)) = skimmed ∧
    ∃ statements others added added' late,
      inner.session.log.errors = opened.session.log.errors ++ added ∧
      inner'.session.log.errors = opened.session.log.errors ++ added' ∧
      parse settings (before ++ [opening] ++ (body ++ closing :: after)) =
        (some statements, opened.session.log.errors ++ added ++ late) ∧
      parse settings (before ++ [opening] ++ (other ++ closing :: after)) =
        (some others, opened.session.log.errors ++ added' ++ late) ∧
      (statements = others ∨ ∃ header, Stmt.Replaced (.function header inner.body.statements)
        (.function header inner'.body.statements) statements others) := by
  intro skimmed opened inner inner'
  obtain ⟨hfinishbody, hfinishother⟩ := List.forall_mem_append.1 hfinish
  have hlimit := (Session.limit_skim settings
    (before ++ [opening] ++ (body ++ closing :: after))).trans hl
  have hlimit' := (Session.limit_skim settings
    (before ++ [opening] ++ (other ++ closing :: after))).trans hl
  have hclean := Log.clean_of_errors h (by rw [hlimit]; exact nofun)
  have hclean' := Log.clean_of_errors h' (by rw [hlimit']; exact nofun)
  have hkbody := Reading.no_end_of_skim hopening hbody hbefore hclean
  have hkother := Reading.no_end_of_skim hopening hother hbefore hclean'
  -- The first pass does the same behind both functions.
  obtain ⟨hskim, -, -, hfirst⟩ := Session.skim_of_clean hclean
  obtain ⟨hskim', -, -, hfirst'⟩ := Session.skim_of_clean hclean'
  obtain ⟨ho, hb, hw, hsteps⟩ := Reading.skim_around hopening hclosing hf hbody hfinishbody
    (List.forall_mem_append.2 ⟨hbefore, hkbody⟩) hfirst
  obtain ⟨-, hb', hw', hsteps'⟩ := Reading.skim_around hopening hclosing hf hother hfinishother
    (List.forall_mem_append.2 ⟨hbefore, hkother⟩) hfirst'
  have hsame :
      Session.skim settings (before ++ [opening] ++ (other ++ closing :: after)) = skimmed := by
    rw [hskim', hsteps', ← hsteps, ← hskim]
  refine ⟨hsame, ?_⟩
  have hhead : ∀ token ∈ before ++ [opening], token.kind ≠ .endOfFile :=
    List.forall_mem_append.2 ⟨hbefore, by simp [hopening]⟩
  obtain ⟨hpbody, hpother, header, htwin⟩ := @Reading.twin_around before body _ _ other after _ h
    hlimit hopening hclosing ho hb hb' hw hw' (List.forall_mem_append.2 ⟨hhead, hkbody⟩)
    (List.forall_mem_append.2 ⟨hhead, hkother⟩)
  have hparse := Reading.parse_of_skim hl h
  have hparse' := Reading.parse_of_skim hl h'
  obtain ⟨-, hfinished, -⟩ := Reading.finished_of_skim hl h
  rw [hsame] at hparse'
  obtain ⟨added, hadded⟩ := hpbody.extends_log.errors_prefix
  obtain ⟨added', hadded'⟩ := hpother.extends_log.errors_prefix
  obtain ⟨late, hlate, hlate'⟩ := htwin.session.logs
  refine ⟨_, _, added, added', late, hadded.symm, hadded'.symm, hparse.trans ?_, hparse'.trans ?_,
    (htwin.statements (Stmt.contextual_replaced _ _) hfinished).imp_right fun hr => ⟨header, hr⟩⟩
  · rw [hadded]
    exact congrArg (Prod.mk _) hlate
  · rw [hadded']
    exact congrArg (Prod.mk _) hlate'

/-- The words of `module m { fn f`. -/
def ahead : List Token :=
  [.synthetic (.keyword .moduleWord) "module", .synthetic .identifier "m",
    .synthetic .openCurly "\x7b", .synthetic (.keyword .fnWord) "fn", .synthetic .identifier "f"]

/-- The words of `int a = true;`. -/
def misfitting : List Token :=
  [.synthetic (.typeName .int) "int", .synthetic .identifier "a",
    .synthetic (.assign .plain) "=", .synthetic (.literal .bool) "true", .synthetic .semicolon ";"]

/-- The words of `while 1 { }`. -/
def undecided : List Token :=
  [.synthetic (.keyword .whileWord) "while", .synthetic (.literal .integer) "1",
    .synthetic .openCurly "\x7b", .synthetic .closeCurly "\x7d"]

/-- The words of `fn g { bool b = 1; } }`. -/
def behind : List Token :=
  [.synthetic (.keyword .fnWord) "fn", .synthetic .identifier "g", .synthetic .openCurly "\x7b",
    .synthetic (.typeName .bool) "bool", .synthetic .identifier "b",
    .synthetic (.assign .plain) "=", .synthetic (.literal .integer) "1", .synthetic .semicolon ";",
    .synthetic .closeCurly "\x7d", .synthetic .closeCurly "\x7d"]

theorem matched_misfitting : Token.Matched misfitting :=
  (@Token.Unbroken.matched misfitting.dropLast (by unfold Token.Unbroken; decide)).append
    (Token.matched_semicolon rfl)

theorem matched_undecided : Token.Matched undecided :=
  (@Token.Unbroken.matched (undecided.take 2) (by unfold Token.Unbroken; decide)).append
    (Token.matched_nil.block rfl rfl)

/-- The bodies of `f` have different faults, and that of `g` has the same one in both programs. -/
theorem parse_independent_of_body_of_faulty :
    let opening : Token := .synthetic .openCurly "\x7b"
    let closing : Token := .synthetic .closeCurly "\x7d"
    let skimmed := Session.skim {} (ahead ++ [opening] ++ (misfitting ++ closing :: behind))
    let opened := (Reading.start skimmed .evaluate).steps (ahead ++ [opening])
    let inner := opened.steps misfitting
    let inner' := opened.steps undecided
    skimmed.log.errors = [] ∧
    (parse {} (ahead ++ [opening] ++ (misfitting ++ closing :: behind))).2 =
      [⟨.typeMismatch "int" "bool", .nowhere, []⟩, ⟨.typeMismatch "bool" "int", .nowhere, []⟩] ∧
    (parse {} (ahead ++ [opening] ++ (undecided ++ closing :: behind))).2 =
      [⟨.conditionNotBoolean "while" "int", .nowhere, []⟩,
        ⟨.typeMismatch "bool" "int", .nowhere, []⟩] ∧
    Session.skim {} (ahead ++ [opening] ++ (undecided ++ closing :: behind)) = skimmed ∧
    ∃ statements others added added' late,
      inner.session.log.errors = opened.session.log.errors ++ added ∧
      inner'.session.log.errors = opened.session.log.errors ++ added' ∧
      parse {} (ahead ++ [opening] ++ (misfitting ++ closing :: behind)) =
        (some statements, opened.session.log.errors ++ added ++ late) ∧
      parse {} (ahead ++ [opening] ++ (undecided ++ closing :: behind)) =
        (some others, opened.session.log.errors ++ added' ++ late) ∧
      (statements = others ∨ ∃ header, Stmt.Replaced (.function header inner.body.statements)
        (.function header inner'.body.statements) statements others) := by
  have h : (Session.skim {} (ahead ++ [.synthetic .openCurly "\x7b"] ++
      (misfitting ++ .synthetic .closeCurly "\x7d" :: behind))).log.errors = [] := by
    decide +kernel
  have h' : (Session.skim {} (ahead ++ [.synthetic .openCurly "\x7b"] ++
      (undecided ++ .synthetic .closeCurly "\x7d" :: behind))).log.errors = [] := by
    decide +kernel
  have hparse : (parse {} (ahead ++ [.synthetic .openCurly "\x7b"] ++
      (misfitting ++ .synthetic .closeCurly "\x7d" :: behind))).2 =
      [⟨.typeMismatch "int" "bool", .nowhere, []⟩, ⟨.typeMismatch "bool" "int", .nowhere, []⟩] := by
    decide +kernel
  have hparse' : (parse {} (ahead ++ [.synthetic .openCurly "\x7b"] ++
      (undecided ++ .synthetic .closeCurly "\x7d" :: behind))).2 =
      [⟨.conditionNotBoolean "while" "int", .nowhere, []⟩,
        ⟨.typeMismatch "bool" "int", .nowhere, []⟩] := by
    decide +kernel
  exact ⟨h, hparse, hparse', parse_independent_of_body rfl rfl rfl rfl (by decide)
    matched_misfitting matched_undecided (by decide) h h'⟩

end MuLang
