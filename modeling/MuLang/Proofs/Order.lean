import MuLang.Proofs.Exchange
import MuLang.Proofs.Modified
import MuLang.Proofs.WellDefined

/-!
# The order of members

Where the types of all globals are written, it does not matter in which order the members of a
module stand. The first pass collects what they declare before the second one looks anything up, so
two readings of the members in another order see tables that answer alike, and the programs that
they yield declare the same.
-/
namespace MuLang

/-! ## What the statements of a program say -/

/-- A header is registered under its own name and parameter types. -/
theorem FunctionHeader.key_of_definition {header : FunctionHeader} {body : FunctionBody}
    {definition : FunctionDefinition} (hv : header.TakesValues)
    (h : header.definition body = .ok definition) :
    definition.name = header.identifier.text ∧
      definition.parameterTypes = header.parameterTypes := by
  have hparameters := parameters_of_definition h
  rw [FunctionHeader.definition] at h
  split at h <;> cases h
  refine ⟨rfl, ?_⟩
  rw [FunctionDefinition.parameterTypes, hparameters, parameterTypes, List.map_filterMap]
  refine List.filterMap_congr fun parameter hp => ?_
  obtain ⟨type, ht⟩ := (hv parameter hp).exists_datatype?
  have hk : type.kind ≠ .void := Token.kind_ne_void_of_datatype? ht (hv parameter hp).2
  simp [Parameter.registered?, Token.registeredType?, ht, hk]

namespace Stmt

variable {natives : Native.Bindings} {path : ModulePath}

theorem entriesIn_append (first second : List Stmt) : entriesIn natives path (first ++ second) =
    entriesIn natives path first ++ entriesIn natives path second := by
  induction first with
  | nil => rfl
  | cons stmt rest ih => rw [List.cons_append, entriesIn, ih, entriesIn, List.append_assoc]

theorem bodiesIn_append (first second : List Stmt) :
    bodiesIn (first ++ second) = bodiesIn first ++ bodiesIn second := by
  induction first with
  | nil => rfl
  | cons stmt rest ih => rw [List.cons_append, bodiesIn, ih, bodiesIn, List.append_assoc]

theorem allAdmissible_append {first second : List Stmt} :
    AllAdmissible natives (first ++ second) ↔
      AllAdmissible natives first ∧ AllAdmissible natives second := by
  rw [AllAdmissible, bodiesIn_append, List.forall_mem_append, List.forall_mem_append, AllAdmissible,
    AllAdmissible, and_and_and_comm]

theorem allAdmissible_module {identifier : Token} {body : List Stmt} :
    AllAdmissible natives [.module identifier body] ↔ AllAdmissible natives body := by
  simp [AllAdmissible, bodiesIn, bodies, Admissible]

/-- A statement without a module in it has its own key alone. -/
theorem map_key_toList {result : Option Stmt} (ha : ∀ stmt ∈ result, stmt.Admissible natives)
    (hi : ∀ stmt ∈ result, stmt.innerKeys natives path = []) :
    (entriesIn natives path result.toList).map Entry.key =
      (result.bind (key? path)).toList := by
  cases result with
  | none => rfl
  | some stmt =>
    rw [Option.toList_some, entriesIn, entriesIn, List.append_nil, map_key_entries path (ha _ rfl),
      hi _ rfl, List.append_nil, Option.bind_some]

end Stmt

namespace Step

variable {s t : Session} {tokens : List Token} {result : Option Stmt} {natives : Native.Bindings}

/-- What a line says has the key of its statement. -/
theorem Says.key_eq (hs : s.isSkimming = false) (path : ModulePath) (h : Says tokens s result t) :
    result.bind (Stmt.key? path) = (Token.addition? path tokens).map Entry.key ∧
      ∀ stmt ∈ result, stmt.innerKeys natives path = [] := by
  cases h with
  | native hr hk h =>
    obtain ⟨signature, binding, hsig, -, rfl, -, hb, definition, hd⟩ :=
      evaluate_nativeStatement hs h
    obtain ⟨hn, ht⟩ := FunctionHeader.key_of_definition (Signature.takesValues_of_ofTokens hsig) hd
    rw [addition?_of_native hr hk hb hsig hd]
    refine ⟨?_, by rintro _ ⟨⟩; rfl⟩
    simp [Entry.key, hn, ht, Stmt.key?, Stmt.submodule?, Stmt.signature?]
  | global hr hk hg h =>
    obtain ⟨form, hform, -, hev⟩ := evaluate_variableStatement hs h
    obtain ⟨typed, type, datatype, scopes, -, rfl⟩ := evaluateVariable_ok hev
    obtain ⟨-, written, -, ha⟩ := @addition?_of_global _ path _ _ _ _ hr hk hform
    rw [ha]
    cases typed with
    | none => exact ⟨rfl, by rintro _ ⟨⟩; rfl⟩
    | some value => exact ⟨rfl, by rintro _ ⟨⟩; rfl⟩
  | nothing hn _ _ hf =>
    rw [hn]
    cases result with
    | none => exact ⟨rfl, by simp⟩
    | some stmt =>
      obtain ⟨keyword, rfl⟩ := hf stmt rfl
      exact ⟨rfl, by rintro _ ⟨⟩; rfl⟩

end Step

/-- The keys of what items say are those of the statements that are read from them. -/
theorem Item.Declares.map_key {s t : Session} {items : List Item} {new : List Stmt}
    {natives : Native.Bindings} (h : Declares s items t new) (hs : s.isSkimming = false)
    (ho : s.Outside) (he : ExplicitIn s.scopes.currentKind s.stdlib items)
    (ha : Stmt.AllAdmissible natives new) :
    (Stmt.entriesIn natives s.scopes.currentModule new).map Entry.key =
      (entriesIn s.scopes.currentModule items).map Entry.key := by
  induction h with
  | nil => rfl
  | @line s t u items words stop whole stops result more hr _ ih =>
    have hone := Declares.of_line whole stops hr
    obtain ⟨hown, hothers⟩ := Stmt.allAdmissible_append.1 ha
    have hsays := Step.says_of_closed ho.inFunction_eq
      (fun hg => he.1 (s.admitsGlobals_eq ▸ hg)) hr
    obtain ⟨hkey, hinner⟩ := hsays.key_eq hs s.scopes.currentModule
    have hrest := ih ((hone.isSkimming_eq ho).trans hs) (hone.outside ho) (hone.explicit ho he)
      hothers
    rw [hone.scopes_eq ho] at hrest
    rw [Stmt.entriesIn_append, List.map_append, hrest, entriesIn, List.map_append, entries]
    have hline := @Stmt.map_key_toList natives s.scopes.currentModule result
      (fun stmt hm => hown.1 stmt (Option.mem_toList.2 hm)) hinner
    rw [hline, hkey, Option.toList_map]
  | @module s t u v inner items head opening closing whole opens closes result inside more hk hr
      hinner _ ihi ih =>
    have hone : Declares s [.block head opening inner closing whole opens closes] _ _ :=
      .module hk hr hinner .nil
    obtain ⟨identifier, hsays, -, -, hmodule, hresult, hstdlib, hpass⟩ :=
      Step.registers_module hk hr
    obtain ⟨hto, hkind, -, -⟩ := ho.inside hr
    obtain rfl := hresult hs
    obtain ⟨hown, hothers⟩ := Stmt.allAdmissible_append.1 ha
    have hbody := he.1
    rw [Explicit, hk, ← hkind, ← hstdlib] at hbody
    have hfilled := ihi (hpass.trans hs) hto hbody (Stmt.allAdmissible_module.1 hown)
    rw [hmodule] at hfilled
    have hrest := ih ((hone.isSkimming_eq ho).trans hs) (ho.of_scopes rfl) (hone.explicit ho he)
      hothers
    rw [Stmt.entriesIn_append, List.map_append, hrest, entriesIn, List.map_append, entries, hsays]
    simp [Stmt.entriesIn, Stmt.withBody, Stmt.entries, hfilled]
  | @function s t u v inner items head opening closing whole opens closes result inside more hk hr
      hinner hpop _ ih =>
    have hone : Declares s [.block head opening inner closing whole opens closes] _ _ :=
      .function hk hr hinner hpop .nil
    obtain ⟨signature, definition, hsig, -, hd, rfl, -⟩ := Step.evaluate_functionStatement hs hr
    obtain ⟨hown, hothers⟩ := Stmt.allAdmissible_append.1 ha
    have hrest := ih ((hone.isSkimming_eq ho).trans hs) (ho.of_scopes rfl) (hone.explicit ho he)
      hothers
    obtain ⟨hn, ht⟩ := FunctionHeader.key_of_definition (Signature.takesValues_of_ofTokens hsig) hd
    have hsays := @Step.addition?_of_function _ s.scopes.currentModule _ _ hk hsig hd
    have hline := @Stmt.map_key_toList natives s.scopes.currentModule
      (some (.function (signature.header _) inside.statements))
      (fun stmt hm => hown.1 stmt (Option.mem_toList.2 hm)) (by rintro _ ⟨⟩; rfl)
    rw [Stmt.entriesIn_append, List.map_append, hrest, entriesIn, List.map_append, entries, hsays]
    congr 1
    refine hline.trans ?_
    simp [Entry.key, hn, ht, Stmt.key?, Stmt.submodule?, Stmt.signature?]

/-! ## Statements in another order -/

namespace Stmt

variable {natives : Native.Bindings} {body others : List Stmt}

theorem entriesIn_eq_flatMap (path : ModulePath) (body : List Stmt) :
    entriesIn natives path body = body.flatMap (entries natives path) := by
  induction body with
  | nil => rfl
  | cons stmt rest ih => rw [entriesIn, ih, List.flatMap_cons]

theorem bodiesIn_eq_flatMap (body : List Stmt) : bodiesIn body = body.flatMap bodies := by
  induction body with
  | nil => rfl
  | cons stmt rest ih => rw [bodiesIn, ih, List.flatMap_cons]

namespace Trades

/-- Statements in another order have the same entries, in another order. -/
theorem perm_entriesIn (h : Trades body others) (path : ModulePath) :
    (entriesIn natives path body).Perm (entriesIn natives path others) := by
  induction h generalizing path with
  | perm hp =>
    rw [entriesIn_eq_flatMap, entriesIn_eq_flatMap]
    exact hp.flatMap_right _
  | later first _ ih =>
    rw [entriesIn_append, entriesIn_append]
    exact (ih path).append_left _
  | inside _ ih => exact ((ih _).cons _).append_right _

/-- They may stand where they do as before. -/
theorem allAdmissible (h : Trades body others) (ha : AllAdmissible natives body) :
    AllAdmissible natives others := by
  induction h with
  | perm hp =>
    refine ⟨fun stmt hm => ha.1 stmt (hp.mem_iff.2 hm), fun inner hm => ha.2 inner ?_⟩
    rw [bodiesIn_eq_flatMap] at hm ⊢
    exact (hp.flatMap_right _).mem_iff.2 hm
  | later first _ ih =>
    rw [allAdmissible_append] at ha ⊢
    exact ⟨ha.1, ih ha.2⟩
  | @inside identifier body others rest _ ih =>
    have split (inner : List Stmt) : AllAdmissible natives (.module identifier inner :: rest) ↔
        AllAdmissible natives inner ∧ AllAdmissible natives rest := by
      rw [← List.singleton_append, allAdmissible_append, allAdmissible_module]
    rw [split] at ha ⊢
    exact ⟨ih ha.1, ha.2⟩

end Trades

end Stmt

/-! ## Passes over members in another order -/

/-- In the first pass it does not matter what a table holds. -/
def Likeness.skimming : Likeness := ⟨.skim, fun _ _ => True, False, [], []⟩

theorem Likeness.lawful_skimming : skimming.Lawful := ⟨fun _ _ _ _ => trivial, nofun⟩

/-- In the second pass the tables hold the same, in another order. -/
def Likeness.evaluating : Likeness where
  pass := .evaluate
  kin table other := table.Rearranges other ∧ table.Unambiguous ∧ other.Unambiguous
  lax := False
  early := []
  others := []

theorem Likeness.lawful_evaluating : evaluating.Lawful where
  register := fun _ _ entry ⟨h, ht, ho⟩ =>
    ⟨h.register ht ho entry, ht.register entry, ho.register entry⟩
  answers := fun _ _ _ ⟨h, ht, ho⟩ => h.answers ht ho

namespace Session

variable {settings : Settings} {session other t e : Session} {tokens : List Token}
  {items : List Item} {new : List Stmt} {like : Likeness}

/-- Where nothing has been reported before, both sessions have reported nothing. -/
theorem Twin.clean (h : t.Twin like e) (he : like.early = []) (ho : like.others = [])
    (hc : t.log.Clean) : e.log.Clean := by
  obtain ⟨late, hl, hr⟩ := h.logs
  have hlate : late = [] := by
    rw [hc.errors_eq, he] at hl
    exact hl.symm
  refine Log.clean_of_errors (by rw [hr, ho, hlate]; rfl) ?_
  rw [h.unlimited.2]
  exact nofun

theorem twin_start (hs : session.settings = other.settings)
    (hk : like.kin session.table other.table) (hl : session.log.limit = none)
    (ho : other.log.limit = none) (hc : session.log.errors = like.early)
    (hd : other.log.errors = like.others) :
    (Reading.start session like.pass).session.Twin (like.within .program)
      (Reading.start other like.pass).session where
  pass_eq := rfl
  other_pass := rfl
  settings_eq := hs
  scopes_eq := rfl
  kin := hk
  stdlib_eq := .inr (congrArg Settings.stdlib hs)
  inside := nofun
  unlimited := ⟨hl, ho⟩
  logs := ⟨[], by rw [List.append_nil]; exact hc, by rw [List.append_nil]; exact hd⟩

/-- What the items of a text declare in a pass that reports nothing. -/
theorem declares_of_readPass {pass : Pass}
    (hread : tokens.takeWhile (·.kind ≠ .endOfFile) = Item.tokensOf items)
    (hc : (session.readPass pass tokens).1.log.Clean) :
    Item.Declares (Reading.start session pass).session items (session.readPass pass tokens).1
      (session.readPass pass tokens).2 := by
  obtain ⟨after, hleads, hafter⟩ := leads_of_readPass hread hc
  obtain ⟨new, hnew, rfl⟩ := hleads.declares (.start _ _) rfl
  rw [hafter]
  exact hnew

theorem readPass_of_declares {pass : Pass}
    (hread : tokens.takeWhile (·.kind ≠ .endOfFile) = Item.tokensOf items)
    (h : Item.Declares (Reading.start session pass).session items t new) (hc : t.log.Clean) :
    session.readPass pass tokens = (t, new) :=
  readPass_of_leads hread (h.leads (.start _ _) []) hc

/-- Where the types of all globals are written, the table of the first pass holds what the items
say, and nothing is left to be inferred. -/
theorem skim_of_declares (hread : tokens.takeWhile (·.kind ≠ .endOfFile) = Item.tokensOf items)
    (he : Item.ExplicitIn .program settings.stdlib items)
    (h : Item.Declares (Reading.start (initial settings) .skim).session items t new)
    (hc : t.log.Clean) :
    skim settings tokens = t ∧
      t.table = SymbolTable.empty.registerAll (Item.entriesIn [] items) := by
  obtain ⟨htable, hdeferred⟩ := h.registers rfl (.start _ _) he
  replace hdeferred : t.deferred = [] := hdeferred
  refine ⟨?_, htable⟩
  rw [skim, readPass_of_declares hread h hc]
  dsimp only
  rw [hdeferred, resolveDeferred]
  rcases t with ⟨settings, pass, table, scopes, stdlib, deferred, log⟩
  obtain rfl : deferred = [] := hdeferred
  rfl

theorem declares_of_skim (hread : tokens.takeWhile (·.kind ≠ .endOfFile) = Item.tokensOf items)
    (he : Item.ExplicitIn .program settings.stdlib items) (hc : (skim settings tokens).log.Clean) :
    ∃ new, Item.Declares (Reading.start (initial settings) .skim).session items
      (skim settings tokens) new := by
  have hlog : (skim settings tokens).log = ((initial settings).readPass .skim tokens).1.log :=
    log_resolveDeferred _ _
  rw [hlog] at hc
  have h := declares_of_readPass hread hc
  rw [(skim_of_declares hread he h hc).1]
  exact ⟨_, h⟩

end Session

/-! ## Analyses of members in another order -/

section

variable {settings : Settings} {natives : Native.Bindings} {tokens text : List Token}
  {items others : List Item} {program : List Stmt}

/-- Where two members of a module trade places, the first pass still reports nothing, and its table
holds the same in another order. -/
theorem Session.skim_of_trades (hb : settings.maxErrors = none)
    (hread : tokens.takeWhile (·.kind ≠ .endOfFile) = Item.tokensOf items)
    (hother : text.takeWhile (·.kind ≠ .endOfFile) = Item.tokensOf others)
    (ht : Item.Trades .program items others) (he : Item.ExplicitIn .program settings.stdlib items)
    (hc : (skim settings tokens).log.Clean) :
    (skim settings text).log.Clean ∧
      (skim settings tokens).table = SymbolTable.empty.registerAll (Item.entriesIn [] items) ∧
      (skim settings text).table = SymbolTable.empty.registerAll (Item.entriesIn [] others) ∧
      (skim settings tokens).settings = settings ∧ (skim settings text).settings = settings := by
  obtain ⟨new, h⟩ := declares_of_skim hread he hc
  have htwin : Session.Twin (Likeness.skimming.within .program)
      (Reading.start (initial settings) .skim).session
      (Reading.start (initial settings) .skim).session :=
    @twin_start _ _ .skimming rfl trivial hb hb rfl rfl
  obtain ⟨t, more, hmore, hlast, -⟩ := h.trades Likeness.lawful_skimming ht rfl (.start _ _) htwin
    he hc ⟨fun _ _ _ => trivial, nofun⟩
  have hclean := hlast.clean rfl rfl hc
  obtain ⟨hskim, htable⟩ := skim_of_declares hother (ht.explicitIn he) hmore hclean
  rw [hskim]
  exact ⟨hclean, (skim_of_declares hread he h hc).2, htable,
    (h.level (.start _ _) hc).settings_eq, (hmore.level (.start _ _) hclean).settings_eq⟩

/-- Where two members of a module trade places, the program is read without a report as before, and
its statements trade places in turn. -/
theorem parse_of_trades (hb : settings.maxErrors = none)
    (hread : tokens.takeWhile (·.kind ≠ .endOfFile) = Item.tokensOf items)
    (hother : text.takeWhile (·.kind ≠ .endOfFile) = Item.tokensOf others)
    (ht : Item.Trades .program items others) (he : Item.ExplicitIn .program settings.stdlib items)
    (h : parse settings tokens = (some program, [])) (ha : Stmt.AllAdmissible natives program)
    (hk : ((Stmt.entriesIn natives [] program).map Entry.key).Nodup) :
    ∃ changed, parse settings text = (some changed, []) ∧ Stmt.Trades program changed := by
  have hb' : settings.maxErrors ≠ some 0 := by rw [hb]; exact nofun
  obtain ⟨hskim, hclean, rfl⟩ := (parse_eq_ok hb').1 h
  obtain ⟨hskim', htable, htable', hsettings, hsettings'⟩ :=
    Session.skim_of_trades hb hread hother ht he hskim
  have hdeclares := Session.declares_of_readPass hread hclean
  have hstart : (Reading.start (Session.skim settings tokens) .evaluate).session.stdlib =
      settings.stdlib := congrArg Settings.stdlib hsettings
  have hexplicit : Item.ExplicitIn ScopeKind.program
    (Reading.start (Session.skim settings tokens) .evaluate).session.stdlib items := hstart ▸ he
  -- No two items say anything of one key, so the tables hold all that is said.
  have hkeys := hdeclares.map_key rfl (.start _ _) hexplicit ha
  have hnodup : ((Item.entriesIn [] items).map Entry.key).Nodup := hkeys ▸ hk
  have hrooted := @Item.rooted_entriesIn items [] [[]] (.head _)
  have hrooted' := @Item.rooted_entriesIn others [] [[]] (.head _)
  have hkin : Likeness.evaluating.kin (Session.skim settings tokens).table
      (Session.skim settings text).table := by
    rw [htable, htable']
    exact ⟨SymbolTable.rearranges_registerAll hrooted hrooted' hnodup (ht.perm_entriesIn []),
      SymbolTable.unambiguous_empty.registerAll _, SymbolTable.unambiguous_empty.registerAll _⟩
  have hstable : Likeness.evaluating.Stable
      (Reading.start (Session.skim settings tokens) .evaluate).session items := by
    refine ⟨nofun, fun _ entry hm hl => ?_⟩
    replace hl : (Session.skim settings tokens).table.Lacks entry.key := hl
    rw [htable, SymbolTable.lacks_registerAll SymbolTable.unambiguous_empty hrooted] at hl
    exact hl.2 (List.mem_map_of_mem hm)
  have htwin := @Session.twin_start _ _ .evaluating (hsettings.trans hsettings'.symm) hkin
    ((Session.limit_skim _ _).trans hb) ((Session.limit_skim _ _).trans hb) hskim.errors_eq
    hskim'.errors_eq
  obtain ⟨t, changed, hchanged, hlast, htrades⟩ := hdeclares.trades Likeness.lawful_evaluating ht
    rfl (.start _ _) htwin hexplicit hclean hstable
  have hclean' := hlast.clean rfl rfl hclean
  have hpass : (Session.skim settings text).readPass .evaluate text = (t, changed) :=
    Session.readPass_of_declares hother hchanged hclean'
  exact ⟨changed, (parse_eq_ok hb').2 ⟨hskim', by rwa [hpass], by rw [hpass]⟩, htrades⟩

/-- What stands behind the end of the file does not matter. -/
theorem parse_congr (hb : settings.maxErrors ≠ some 0)
    (hread : tokens.takeWhile (·.kind ≠ .endOfFile) = Item.tokensOf items)
    (hother : text.takeWhile (·.kind ≠ .endOfFile) = Item.tokensOf items)
    (h : parse settings tokens = (some program, [])) :
    parse settings text = (some program, []) := by
  have same {session : Session} {pass : Pass}
      (hc : (session.readPass pass tokens).1.log.Clean) :
      session.readPass pass text = session.readPass pass tokens := by
    obtain ⟨after, hleads, hafter⟩ := Session.leads_of_readPass hread hc
    rw [Session.readPass_of_leads hother hleads hc, ← hafter]
  obtain ⟨hskim, hclean, hprogram⟩ := (parse_eq_ok hb).1 h
  have hfirst : (Session.skim settings tokens).log =
      ((Session.initial settings).readPass .skim tokens).1.log := Session.log_resolveDeferred _ _
  have heq : Session.skim settings text = Session.skim settings tokens := by
    rw [Session.skim, same (hfirst ▸ hskim), Session.skim]
  rw [parse_eq_ok hb, heq, same hclean]
  exact ⟨hskim, hclean, hprogram⟩

/-- Where two members of a module trade places, the program is accepted as before, and its symbols
are the same in another order. -/
theorem exists_analysis_of_trades {analysis : Analysis} (hb : settings.maxErrors = none)
    (hread : tokens.takeWhile (·.kind ≠ .endOfFile) = Item.tokensOf items)
    (hother : text.takeWhile (·.kind ≠ .endOfFile) = Item.tokensOf others)
    (ht : Item.Trades .program items others) (he : Item.ExplicitIn .program settings.stdlib items)
    (h : analyze settings natives tokens = .ok analysis) :
    ∃ other, analyze settings natives text = .ok other ∧
      analysis.symbols.Rearranges other.symbols := by
  have hb' : settings.maxErrors ≠ some 0 := by rw [hb]; exact nofun
  obtain ⟨hparse, hdefine⟩ := analyze_eq_ok.1 h
  obtain ⟨hadmissible, hadd⟩ := (define_eq_ok hb' (areModifiers_of_parse hb' hparse)).1 hdefine
  obtain ⟨hnodup, hsymbols⟩ := (Entry.addAll_empty (Stmt.rooted_entriesIn (.head _))).1 hadd
  obtain ⟨changed, hchanged, htrades⟩ := parse_of_trades hb hread hother ht he hparse hadmissible
    hnodup
  have hperm := @Stmt.Trades.perm_entriesIn natives _ _ htrades []
  refine ⟨⟨changed, .extend .empty (Stmt.entriesIn natives [] changed)⟩, analyze_eq_ok.2
    ⟨hchanged, (define_eq_ok hb' (areModifiers_of_parse hb' hchanged)).2 ⟨htrades.allAdmissible
      hadmissible, (Entry.addAll_empty (Stmt.rooted_entriesIn (.head _))).2 ⟨?_, rfl⟩⟩⟩, ?_⟩
  · exact (hperm.map _).nodup_iff.1 hnodup
  · rw [hsymbols]
    exact (SymbolTable.Rearranges.refl _).extend hperm

/-- The items of a text go on up to the end of its file. -/
theorem Item.takeWhile_tokensOf (items : List Item) :
    (tokensOf items).takeWhile (·.kind ≠ .endOfFile) = tokensOf items := by
  have word {words : List Token} (h : Token.Unbroken words) :
      ∀ token ∈ words, token.kind ≠ .endOfFile := by
    intro token hm hk
    have hn := h token hm
    rw [hk] at hn
    cases hn
  suffices h : ∀ token ∈ tokensOf items, token.kind ≠ .endOfFile by simpa using h
  induction items using Item.induction with
  | nil => exact nofun
  | line words stop whole stops rest ih =>
    rw [tokensOf, tokens, List.forall_mem_append, List.forall_mem_append]
    exact ⟨⟨word whole, by simp [stops]⟩, ih⟩
  | block head opening inner closing whole opens closes rest ihi ih =>
    simp only [tokensOf_block, List.forall_mem_append]
    exact ⟨word whole, by simp [opens], ihi, by simp [closes], ih⟩

/-- However the members of modules are reordered, the text is a list of items whose neighbours have
traded places one after the other. -/
theorem exists_items_of_reordered {read : List Token}
    (h : Relation.ReflTransGen Token.Reordered (Item.tokensOf items) read) :
    ∃ others, read = Item.tokensOf others ∧
      Relation.ReflTransGen (Item.Trades .program) items others := by
  have htrades : Relation.ReflTransGen Token.Trades (Item.tokensOf items) read :=
    h.lift' id fun _ _ => Token.Reordered.trades
  clear h
  induction htrades with
  | refl => exact ⟨items, rfl, .refl⟩
  | tail _ hlast ih =>
    obtain ⟨between, rfl, hbetween⟩ := ih
    obtain ⟨others, rfl, htrades⟩ := Item.exists_trades hlast
    exact ⟨others, rfl, hbetween.tail htrades⟩

theorem Item.explicitIn_of_trades {kind : ScopeKind} {stdlib : Bool}
    (h : Relation.ReflTransGen (Trades kind) items others) (he : ExplicitIn kind stdlib items) :
    ExplicitIn kind stdlib others := by
  induction h with
  | refl => exact he
  | tail _ hlast ih => exact hlast.explicitIn ih

/-- However they have traded places, the program is accepted as before. -/
theorem exists_analysis_of_items {analysis : Analysis} (hb : settings.maxErrors = none)
    (hread : tokens.takeWhile (·.kind ≠ .endOfFile) = Item.tokensOf items)
    (hother : text.takeWhile (·.kind ≠ .endOfFile) = Item.tokensOf others)
    (ht : Relation.ReflTransGen (Item.Trades .program) items others)
    (he : Item.ExplicitIn .program settings.stdlib items)
    (h : analyze settings natives tokens = .ok analysis) :
    ∃ other, analyze settings natives text = .ok other ∧
      analysis.symbols.Rearranges other.symbols := by
  have hb' : settings.maxErrors ≠ some 0 := by rw [hb]; exact nofun
  induction ht generalizing text with
  | refl =>
    obtain ⟨hparse, hdefine⟩ := analyze_eq_ok.1 h
    exact ⟨analysis, analyze_eq_ok.2 ⟨parse_congr hb' hread hother hparse, hdefine⟩, .refl _⟩
  | @tail between others htrades hlast ih =>
    obtain ⟨middle, hmiddle, hfirst⟩ := ih (Item.takeWhile_tokensOf _)
    obtain ⟨other, hanalysis, hsecond⟩ := exists_analysis_of_trades hb (Item.takeWhile_tokensOf _)
      hother hlast (Item.explicitIn_of_trades htrades he) hmiddle
    exact ⟨other, hanalysis, hfirst.trans hsecond⟩

end

/-- Declaration order does not matter: in a text that is a list of lines and blocks, where the types
of all globals are written, and without a budget, the members of any modules may be reordered. The
program is accepted or not as before, and the tables of its symbols hold the same modules, and in
each of them the same globals and functions, up to their order. -/
theorem analyze_reordered {settings : Settings} {natives : Native.Bindings}
    {tokens text : List Token} {items : List Item} (hb : settings.maxErrors = none)
    (hread : tokens.takeWhile (·.kind ≠ .endOfFile) = Item.tokensOf items)
    (he : Item.ExplicitIn .program settings.stdlib items)
    (h : Relation.ReflTransGen Token.Reordered (tokens.takeWhile (·.kind ≠ .endOfFile))
      (text.takeWhile (·.kind ≠ .endOfFile))) :
    ((∃ analysis, analyze settings natives tokens = .ok analysis) ↔
        ∃ other, analyze settings natives text = .ok other) ∧
      ∀ analysis other, analyze settings natives tokens = .ok analysis →
        analyze settings natives text = .ok other →
        analysis.symbols.Rearranges other.symbols := by
  rw [hread] at h
  obtain ⟨others, hother, htrades⟩ := exists_items_of_reordered h
  have hback : Relation.ReflTransGen (Item.Trades .program) others items :=
    htrades.swap.lift id fun _ _ => Item.Trades.symm
  refine ⟨⟨?_, ?_⟩, ?_⟩
  · rintro ⟨analysis, hanalysis⟩
    obtain ⟨other, hmore, -⟩ := exists_analysis_of_items hb hread hother htrades he hanalysis
    exact ⟨other, hmore⟩
  · rintro ⟨other, hanalysis⟩
    obtain ⟨analysis, hmore, -⟩ := exists_analysis_of_items hb hother hread hback
      (Item.explicitIn_of_trades htrades he) hanalysis
    exact ⟨analysis, hmore⟩
  · intro analysis other hanalysis hmore
    obtain ⟨found, hfound, hsame⟩ := exists_analysis_of_items hb hread hother htrades he hanalysis
    rw [hmore] at hfound
    cases hfound
    exact hsame

/-- The lines `mut int a = b;` and `int b = 1;` of a module. -/
def pair : List (List Token) :=
  let word (text : String) : Token := .synthetic .identifier text
  let int : Token := .synthetic (.typeName .int) "int"
  let gets : Token := .synthetic (.assign .plain) "="
  [[.synthetic (.modifier .mutable) "mut", int, word "a", gets, word "b",
      .synthetic .semicolon ";"],
    [int, word "b", gets, .synthetic (.literal .integer) "1", .synthetic .semicolon ";"]]

/-- The program `module m { mut int a = b; int b = 1; }`, with its lines in some order. -/
def paired (lines : List (List Token)) : List Token :=
  .synthetic (.keyword .moduleWord) "module" :: .synthetic .identifier "m" ::
    .synthetic .openCurly "\x7b" :: (lines.flatten ++ [.synthetic .closeCurly "\x7d"])

/-- The items of that program. -/
def pairedItems : List Item :=
  [.block (paired pair |>.take 2) (.synthetic .openCurly "\x7b")
    [.line ((paired pair).drop 3 |>.take 5) (.synthetic .semicolon ";")
      (by unfold Token.Unbroken; decide) rfl,
    .line ((paired pair).drop 9 |>.take 4) (.synthetic .semicolon ";")
      (by unfold Token.Unbroken; decide) rfl]
    (.synthetic .closeCurly "\x7d") (by unfold Token.Unbroken; decide) rfl rfl]

/-- The value of a global may name one that is declared above it or below it. -/
theorem analyze_reordered_pair :
    ∃ analysis other, analyze {} (fun _ _ => .notFound) (paired pair) = .ok analysis ∧
      analyze {} (fun _ _ => .notFound) (paired pair.reverse) = .ok other ∧
      analysis.symbols.Rearranges other.symbols := by
  have hread : (paired pair).takeWhile (·.kind ≠ .endOfFile) = Item.tokensOf pairedItems := by
    with_unfolding_all rfl
  have hmembers : ∀ member ∈ pair, Token.IsMember member := by
    refine List.forall_mem_cons.2 ⟨?_, List.forall_mem_cons.2 ⟨?_, nofun⟩⟩
    · exact @Token.IsMember.line ((paired pair).drop 3 |>.take 5) (.synthetic .semicolon ";")
        (by unfold Token.Unbroken; decide) rfl
    · exact @Token.IsMember.line ((paired pair).drop 9 |>.take 4) (.synthetic .semicolon ";")
        (by unfold Token.Unbroken; decide) rfl
  have hreordered : Token.Reordered ((paired pair).takeWhile (·.kind ≠ .endOfFile))
      ((paired pair.reverse).takeWhile (·.kind ≠ .endOfFile)) :=
    @Token.Reordered.intro [] ((paired pair).take 2) [.synthetic .closeCurly "\x7d"]
      (.synthetic .openCurly "\x7b") pair pair.reverse Token.ended_nil
      (by unfold Token.Unbroken; decide) rfl rfl hmembers (List.reverse_perm _).symm
  have hexplicit : Item.ExplicitIn .program false pairedItems :=
    ⟨⟨fun _ => rfl, fun _ => rfl, trivial⟩, trivial⟩
  obtain ⟨hiff, hsame⟩ := @analyze_reordered {} (fun _ _ => .notFound) _ _ _ rfl hread hexplicit
    (.single hreordered)
  have haccepted : ∃ analysis, analyze {} (fun _ _ => .notFound) (paired pair) = .ok analysis := by
    have hok : (analyze {} (fun _ _ => .notFound) (paired pair)).isOk = true := by
      with_unfolding_all rfl
    cases h : analyze {} (fun _ _ => .notFound) (paired pair) with
    | ok analysis => exact ⟨analysis, rfl⟩
    | error errors =>
      rw [h] at hok
      cases hok
  obtain ⟨analysis, hanalysis⟩ := haccepted
  obtain ⟨other, hother⟩ := hiff.1 ⟨analysis, hanalysis⟩
  exact ⟨analysis, other, hanalysis, hother, hsame analysis other hanalysis hother⟩

end MuLang
