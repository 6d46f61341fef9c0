import MuLang.Proofs.Drawn

/-!
# Where the errors of a program stand

Every error of an analysis stands at the start or the end of a token of the program, but for a few
that are found at a token which a statement makes up. Which those are, and what a program must hold
for each of them, is said by `Unplaced`. A program that neither loops, nor counts, nor declares
native functions has none of them.
-/
namespace MuLang

open Token (Has)

variable {source : List Token}

/-! ## Definitions -/

namespace Token

variable {token : Token} {tokens : List Token}

theorem mem_of_firstRepeated? {earlier : List Token}
    (h : firstRepeated? earlier tokens = some token) :
    token ∈ tokens := by
  induction tokens generalizing earlier with
  | nil => cases h
  | cons first rest ih =>
    unfold firstRepeated? at h
    split at h
    · cases h
      exact List.mem_cons_self
    · exact List.mem_cons_of_mem _ (ih h)

theorem mem_of_firstClashing? {earlier : List Token}
    (h : firstClashing? earlier tokens = some token) :
    token ∈ tokens := by
  induction tokens generalizing earlier with
  | nil => cases h
  | cons first rest ih =>
    unfold firstClashing? at h
    split at h
    · cases h
      exact List.mem_cons_self
    · exact List.mem_cons_of_mem _ (ih h)

end Token

/-- An error is located, unless it is a fault of the analysis. -/
def Placed (source : List Token) (error : Error) : Prop := error.isInternal ∨ Located source error

theorem placed_atToken {token : Token} (h : token ∈ source) (cause : Cause) :
    Placed source (.atToken cause token) :=
  .inr (located_atToken h cause)

namespace Definition

variable {header : FunctionHeader} {table : SymbolTable} {module : ModulePath}
  {modifiers : List Token} {error : Error}

theorem placed_of_checkModifiers {target : String} {invalid : Modifier → Bool}
    (hm : modifiers ⊆ source) (h : checkModifiers target modifiers invalid = .error error) :
    Placed source error := by
  unfold checkModifiers at h
  split at h
  next hf =>
    cases h
    exact placed_atToken (hm (List.mem_of_find?_eq_some hf)) _
  · split at h
    next hr =>
      cases h
      exact placed_atToken (hm (Token.mem_of_firstRepeated? hr)) _
    · split at h <;> cases h
      next hc => exact placed_atToken (hm (Token.mem_of_firstClashing? hc)) _

theorem placed_of_datatype {token : Token} {nullable : Bool}
    (h : datatype token nullable = .error error) : Placed source error := by
  unfold datatype at h
  split at h <;> cases h
  exact .inl rfl

theorem placed_of_parameter {p : Parameter} (hp : p.modifiers ⊆ source)
    (h : parameter p = .error error) : Placed source error := by
  simp only [parameter, Except.bind_eq_error, Except.pure_ne_error, and_false, exists_false,
    or_false] at h
  obtain h | ⟨-, -, h⟩ := h
  · exact placed_of_checkModifiers hp h
  · exact placed_of_datatype h

theorem placed_of_function (hd : header.Drawn source) {body : FunctionBody}
    (h : function header body = .error error) : Placed source error := by
  simp only [function, Except.bind_eq_error, Except.pure_ne_error, and_false, exists_false,
    or_false] at h
  obtain h | ⟨-, -, h | ⟨-, -, h⟩⟩ := h
  · exact placed_of_checkModifiers hd.modifiers h
  · obtain ⟨p, hm, h⟩ := Except.exists_of_mapM_eq_error h
    exact placed_of_parameter (hd.parameters p hm).1 h
  · exact placed_of_datatype h

theorem placed_of_addFunction {identifier : Token} (hi : identifier ∈ source)
    {definition : FunctionDefinition}
    (h : addFunction table module identifier definition = .error error) : Placed source error := by
  unfold addFunction at h
  split at h <;> cases h
  exact .inr (.start hi rfl)

/-- A function whose return type is not written is one of `void`. -/
theorem returnType_of_function {body : FunctionBody} {definition : FunctionDefinition}
    (ht : header.returnType = voidToken) (h : function header body = .ok definition) :
    definition.returnType = .void := by
  simp only [function, Except.bind_eq_ok, Except.pure_eq_ok] at h
  obtain ⟨-, -, parameters, -, type, hr, rfl⟩ := h
  rw [ht] at hr
  cases hr
  rfl

theorem placed_of_native {natives : Native.Bindings} {binding : Token} (hd : header.Drawn source)
    (hr : header.Returns source) (hb : binding ∈ source)
    (h : native natives table module header binding = .error error) : Placed source error := by
  simp only [native, Except.bind_eq_error] at h
  obtain h | ⟨definition, hf, h | ⟨descriptor, -, h⟩⟩ := h
  · exact placed_of_function hd h
  · unfold bind at h
    dsimp only at h
    split at h
    · cases h
      exact placed_atToken hb _
    · cases h
      exact placed_atToken hb _
    · split at h <;> cases h
      obtain hr | ⟨hv, hn⟩ := hr
      · exact placed_atToken hr _
      · rw [hv, returnType_of_function hv hf]
        exact .inr (.nowhere (.returnType _ hn))
  · exact placed_of_addFunction hd.identifier h

theorem placed_of_global {header : VariableHeader} (hd : header.Drawn source)
    {value : Option Datatype} (h : global table module header value = .error error) :
    Placed source error := by
  simp only [global, Except.bind_eq_error] at h
  obtain h | ⟨-, -, h⟩ := h
  · exact placed_of_checkModifiers hd.modifiers h
  · split at h
    · obtain rfl : _ = error := Except.throw_eq_error.1 h
      exact placed_atToken hd.identifier _
    · obtain h | ⟨type, -, h⟩ := Except.bind_eq_error.1 h
      · exact placed_of_datatype h
      · split at h
        · cases h
        · obtain rfl : _ = error := Except.throw_eq_error.1 h
          exact .inr (.start hd.identifier rfl)

theorem placed_of_localErrors {header : VariableHeader} (hd : header.Drawn source) :
    ∀ error ∈ localErrors header, Placed source error := by
  intro error he
  unfold localErrors at he
  split at he
  · cases he
  next h =>
    obtain rfl := List.mem_singleton.1 he
    exact placed_of_checkModifiers hd.modifiers h

mutual

theorem placed_of_errorsOf : ∀ stmt : Stmt, stmt.Drawn source →
    ∀ error ∈ errorsOf stmt, Placed source error
  | .declare header, hd => placed_of_localErrors hd
  | .define header _, hd => placed_of_localErrors hd
  | .ifElse _ _ body otherwise, hd =>
    List.forall_mem_append.2 ⟨placed_of_errorsIn body hd.1, placed_of_errorsAfter otherwise hd.2⟩
  | .whileLoop _ _ body, hd => placed_of_errorsIn body hd
  | .forLoop _ header _ _ _ body, hd =>
    List.forall_mem_append.2 ⟨placed_of_localErrors hd.1, placed_of_errorsIn body hd.2⟩
  | .module .., _ => by simp [errorsOf]
  | .function .., _ => by simp [errorsOf]
  | .native .., _ => by simp [errorsOf]
  | .action _, _ => by simp [errorsOf]
  | .returning .., _ => by simp [errorsOf]
  | .stdlibFinish _, _ => by simp [errorsOf]

theorem placed_of_errorsAfter : ∀ branch : Else, branch.Drawn source →
    ∀ error ∈ errorsAfter branch, Placed source error
  | .absent, _ => by simp [errorsAfter]
  | .block body, hd => placed_of_errorsIn body hd
  | .elseIf _ _ body otherwise, hd =>
    List.forall_mem_append.2 ⟨placed_of_errorsIn body hd.1, placed_of_errorsAfter otherwise hd.2⟩

theorem placed_of_errorsIn : ∀ body : List Stmt, Stmt.AllDrawn source body →
    ∀ error ∈ errorsIn body, Placed source error
  | [], _ => by simp [errorsIn]
  | stmt :: rest, hd =>
    List.forall_mem_append.2 ⟨placed_of_errorsOf stmt hd.1, placed_of_errorsIn rest hd.2⟩

end

end Definition

namespace Definer

open Definition

variable {definer : Definer} {natives : Native.Bindings} {module : ModulePath}

/-- All errors of a definition have their places. -/
abbrev AllPlaced (source : List Token) (definer : Definer) : Prop :=
  ∀ error ∈ definer.log.errors, Placed source error

theorem allPlaced_accept (h : definer.AllPlaced source) {result : Except Error SymbolTable}
    (hr : ∀ error, result = .error error → Placed source error) :
    (definer.accept result).AllPlaced source := by
  cases result with
  | ok table => exact h
  | error error => exact Log.forall_mem_report h (hr error rfl)

theorem allPlaced_foldl_report (h : definer.AllPlaced source) {errors : List Error}
    (he : ∀ error ∈ errors, Placed source error) :
    (errors.foldl report definer).AllPlaced source := by
  induction errors generalizing definer with
  | nil => exact h
  | cons error rest ih =>
    obtain ⟨hfirst, hrest⟩ := List.forall_mem_cons.1 he
    have hr : (definer.report error).AllPlaced source := Log.forall_mem_report h hfirst
    exact ih hr hrest

theorem allPlaced_function (h : definer.AllPlaced source) {header : FunctionHeader}
    (hd : header.Drawn source) {body : List Stmt} (hb : Stmt.AllDrawn source body) :
    (definer.function module header body).AllPlaced source := by
  unfold function
  split
  next error he => exact Log.forall_mem_report h (placed_of_function hd he)
  next definition _ =>
    have ha : (definer.accept (addFunction definer.table module header.identifier
        definition)).AllPlaced source :=
      allPlaced_accept h fun error he => placed_of_addFunction hd.identifier he
    exact allPlaced_foldl_report ha (placed_of_errorsIn body hb)

mutual

/-- Whatever is wrong with a drawn declaration has its place. -/
theorem allPlaced_statement (natives : Native.Bindings) : ∀ (stmt : Stmt) (module : ModulePath)
    (definer : Definer), stmt.Drawn source → definer.AllPlaced source →
    (statement natives module definer stmt).AllPlaced source
  | .module identifier body, module, definer, hd, h => by
    unfold statement
    split
    next table _ => exact allPlaced_block natives body _ { definer with table } hd.2 h
    · exact Log.forall_mem_report h (.inr (.start hd.1 rfl))
  | .function header body, _, _, hd, h => allPlaced_function h hd.1 hd.2
  | .native header binding, _, _, hd, h =>
    allPlaced_accept h fun _ he => placed_of_native hd.1 hd.2.1 hd.2.2 he
  | .declare header, _, _, hd, h => allPlaced_accept h fun _ he => placed_of_global hd he
  | .define header value, _, _, hd, h => allPlaced_accept h fun _ he => placed_of_global hd he
  | .stdlibFinish _, _, _, _, h => h
  | .action _, _, _, _, h => Log.forall_mem_report h (.inl rfl)
  | .ifElse .., _, _, _, h => Log.forall_mem_report h (.inl rfl)
  | .whileLoop .., _, _, _, h => Log.forall_mem_report h (.inl rfl)
  | .forLoop .., _, _, _, h => Log.forall_mem_report h (.inl rfl)
  | .returning .., _, _, _, h => Log.forall_mem_report h (.inl rfl)

theorem allPlaced_block (natives : Native.Bindings) : ∀ (body : List Stmt) (module : ModulePath)
    (definer : Definer), Stmt.AllDrawn source body → definer.AllPlaced source →
    (block natives module definer body).AllPlaced source
  | [], _, _, _, h => h
  | stmt :: rest, module, definer, hd, h => by
    unfold block
    split
    · exact h
    · exact allPlaced_block natives rest module _ hd.2
        (allPlaced_statement natives stmt module definer hd.1 h)

end

end Definer

/-! ## Passes -/

namespace Reading

variable {reading later : Reading} {read tokens : List Token} {token : Token}

/-- All errors of a pass are located. -/
abbrev AllLocated (source : List Token) (reading : Reading) : Prop :=
  ∀ error ∈ reading.session.log.errors, Located source error

theorem allLocated_run {α : Type} {step : Step (Option α)} (h : reading.AllLocated source)
    (hs : Step.Locates source step) : (reading.run step).2.AllLocated source := by
  obtain ⟨more, hm, ha⟩ := added_run hs reading
  rw [AllLocated, hm]
  exact List.forall_mem_append.2 ⟨h, ha⟩

theorem allLocated_report (h : reading.AllLocated source) {error : Error}
    (he : Located source error) : (reading.report error).AllLocated source :=
  Log.forall_mem_report h he

theorem allLocated_closeBlock (h : reading.AllLocated source) (ht : token ∈ source) :
    (reading.closeBlock token).AllLocated source := by
  unfold closeBlock
  split
  · exact allLocated_report h (located_atToken ht _)
  · dsimp only
    split
    · exact Log.forall_mem_report h (located_atToken ht _)
    · rw [AllLocated, session_changeBody]
      exact h

/-- Every token that is read adds located errors alone. -/
theorem allLocated_step (h : reading.AllLocated source) (hc : reading.current ⊆ source)
    (ht : token ∈ source) : (reading.step token).AllLocated source := by
  have hs : reading.current ++ [token] ⊆ source :=
    List.append_subset.2 ⟨hc, by simpa using ht⟩
  unfold Reading.step
  split
  next hk =>
    rw [endStatement_eq, AllLocated, session_changeBody]
    have hstop : Token.Stopped (reading.current ++ [token]) :=
      Token.stopped_append _ (by rw [hk]; rfl)
    exact @allLocated_run source { reading with current := [] } _ _ h
      (Step.locates_closed hs hstop)
  next hk =>
    have hstop : Token.Stopped (reading.current ++ [token]) :=
      Token.stopped_append _ (by rw [hk]; rfl)
    exact @allLocated_run source { reading with current := [] } _ _ h
      (Step.locates_owner hs hstop _)
  · split
    · exact allLocated_closeBlock h ht
    next =>
      have hr : (report { reading with current := [] }
          (.atToken (.expectedToken "`;`" token.text) token)).AllLocated source :=
        Log.forall_mem_report h (located_atToken ht _)
      exact allLocated_closeBlock hr ht
  · exact h

theorem allLocated_of_passes {session : Session} {pass : Pass} (hs : session.log.errors = [])
    (h : (start session pass).Passes read later) (hr : read ⊆ source) :
    later.AllLocated source := by
  induction h with
  | start =>
    intro error he
    change error ∈ session.log.errors at he
    rw [hs] at he
    cases he
  | token h _ _ ih =>
    obtain ⟨hread, ht⟩ := List.append_subset.1 hr
    exact allLocated_step (ih hread) (List.Subset.trans (current_subset_of_passes h) hread)
      (ht (List.mem_singleton_self _))

end Reading

namespace Session

/-- A pass that starts without an error reports located errors alone. -/
theorem allLocated_readPass {session : Session} (h : session.log.errors = []) (pass : Pass)
    (tokens : List Token) :
    ∀ error ∈ (session.readPass pass tokens).1.log.errors, Located tokens error := by
  obtain ⟨read, rest, he, hp, -⟩ := Reading.exists_passes_steps (.start session pass) tokens
  have hread : read ⊆ tokens := he ▸ List.subset_append_left read rest
  have hl := Reading.allLocated_of_passes h hp hread
  have hu : (Reading.reportUnfinished ((Reading.start session pass).steps tokens)).AllLocated
      tokens := by
    unfold Reading.reportUnfinished
    split
    next last hlast =>
      have hm := Reading.current_subset_of_passes hp (List.mem_of_getLast? hlast)
      exact Reading.allLocated_report hl (located_atToken (hread hm) _)
    · exact hl
  change (Reading.reportUnclosed _ tokens).AllLocated tokens
  unfold Reading.reportUnclosed
  split
  · refine Reading.allLocated_report hu ?_
    cases hlast : tokens.getLast? with
    | some last => exact .start (List.mem_of_getLast? hlast) rfl
    | none =>
      -- Without a token no block is open.
      obtain rfl := List.getLast?_eq_none_iff.1 hlast
      next hb => exact absurd hb (by simp [Reading.steps, Reading.start, Reading.reportUnfinished])
  · exact hu

theorem allDrawn_readPass (session : Session) (tokens : List Token) :
    Stmt.AllDrawn tokens (session.readPass .evaluate tokens).2 := by
  obtain ⟨read, rest, he, hp, -⟩ := Reading.exists_passes_steps (.start session .evaluate) tokens
  change Stmt.AllDrawn tokens (Reading.finish _ tokens).program.statements
  rw [Reading.program_finish]
  exact (Reading.drawn_of_passes hp (he ▸ List.subset_append_left read rest)).program

end Session

variable (settings : Settings) (natives : Native.Bindings) (tokens : List Token)

theorem located_parse : ∀ error ∈ (parse settings tokens).2, Located tokens error := by
  unfold parse
  dsimp only
  split
  next h => exact Session.allLocated_readPass (List.isEmpty_iff.1 h) .evaluate tokens
  next =>
    have hl : (Session.skim settings tokens).log =
        ((Session.initial settings).readPass .skim tokens).1.log :=
      Session.log_resolveDeferred _ _
    rw [hl]
    exact Session.allLocated_readPass rfl .skim tokens

theorem allDrawn_parse : ∀ program ∈ (parse settings tokens).1, Stmt.AllDrawn tokens program := by
  unfold parse
  dsimp only
  split
  · rintro _ ⟨⟩
    exact Session.allDrawn_readPass _ tokens
  · simp

theorem located_define {program : List Stmt} (hp : program ∈ (parse settings tokens).1)
    {errors : List Error} (h : define settings natives program = .error errors) :
    ∀ error ∈ errors, Located tokens error := by
  have hexternal := external_define settings natives (definable_parse settings tokens program hp) h
  have hi : (Definer.initial settings).AllPlaced tokens := fun _ he => absurd he List.not_mem_nil
  have hb := Definer.allPlaced_block natives program [] (.initial settings)
    (allDrawn_parse settings tokens program hp) hi
  intro error he
  refine Or.resolve_left (a := error.isInternal) ?_ (hexternal error he)
  unfold define at h
  dsimp only at h
  split at h <;> cases h
  exact hb error he

/-- What holds of the errors of a parse and of the definition of what it hands over holds of all
errors of an analysis. -/
theorem forall_mem_of_analyze {p : Error → Prop} {errors : List Error}
    (hp : ∀ error ∈ (parse settings tokens).2, p error)
    (hd : ∀ program ∈ (parse settings tokens).1, ∀ more,
      define settings natives program = .error more → ∀ error ∈ more, p error)
    (h : analyze settings natives tokens = .error errors) : ∀ error ∈ errors, p error := by
  unfold analyze at h
  dsimp only at h
  split at h
  · cases h
    exact hp
  · split at h
    · cases h
      exact hp
    next program hm =>
      split at h
      · split at h <;> cases h
        exact hp
      next more he =>
        cases h
        have hall : ∀ error ∈ (parse settings tokens).2 ++ more, p error :=
          List.forall_mem_append.2 ⟨hp, hd program hm more he⟩
        split
        · exact fun error hm => hall error (List.mem_of_mem_take hm)
        · exact hall

/-- Each error of an analysis stands at the start or at the end of a token of the program, or it
stands nowhere, since it is found at a token that the program only stands for. -/
theorem analyze_located {errors : List Error}
    (h : analyze settings natives tokens = .error errors) :
    ∀ error ∈ errors,
      (∃ token ∈ tokens,
        error.position = token.span.start ∨ error.position = token.span.stop) ∨
      error.position = .nowhere ∧ Unplaced tokens error := by
  have hl : ∀ error ∈ errors, Located tokens error :=
    forall_mem_of_analyze settings natives tokens (located_parse settings tokens)
      (fun _ hp _ => located_define settings natives tokens hp) h
  intro error he
  cases hl error he with
  | start ht hp => exact .inl ⟨_, ht, .inl hp⟩
  | stop ht hp => exact .inl ⟨_, ht, .inr hp⟩
  | nowhere hu => exact .inr ⟨hu.position_eq, hu⟩

/-- The words of `module m { fn f { mut bool b = true; b += 1; b++; } }` in a file. -/
def increments : List Token :=
  let word (kind : Kind) (text : String) (start stop : Nat) : Token :=
    ⟨⟨kind, text⟩, ⟨start, "shell"⟩, ⟨stop, "shell"⟩⟩
  [word (.keyword .moduleWord) "module" 0 6, word .identifier "m" 7 8, word .openCurly "\x7b" 9 10,
    word (.keyword .fnWord) "fn" 11 13, word .identifier "f" 14 15, word .openCurly "\x7b" 16 17,
    word (.modifier .mutable) "mut" 18 21, word (.typeName .bool) "bool" 22 26,
    word .identifier "b" 27 28, word (.assign .plain) "=" 29 30, word (.literal .bool) "true" 31 35,
    word .semicolon ";" 35 36, word .identifier "b" 37 38, word (.assign .add) "+=" 39 41,
    word (.literal .integer) "1" 42 43, word .semicolon ";" 43 44, word .identifier "b" 45 46,
    word .plusPlus "++" 46 48, word .semicolon ";" 48 49, word .closeCurly "\x7d" 50 51,
    word .closeCurly "\x7d" 52 53]

/-- One is added to a `bool` twice. Where `+=` is written the error stands at it, and where `++`
stands for it the error stands nowhere. -/
theorem analyze_increments : analyze {} (fun _ _ => .notFound) increments =
    .error [⟨.operatorMismatch "+=" "bool and int", ⟨39, "shell"⟩, []⟩,
      ⟨.operatorMismatch "+=" "bool and int", .nowhere, []⟩] := by
  with_unfolding_all rfl

theorem nowhere_in_increments : ¬∃ token ∈ increments,
    Position.nowhere = token.span.start ∨ Position.nowhere = token.span.stop := by
  decide

theorem analyze_located_of_increments :
    analyze {} (fun _ _ => .notFound) increments =
      .error [⟨.operatorMismatch "+=" "bool and int", ⟨39, "shell"⟩, []⟩,
        ⟨.operatorMismatch "+=" "bool and int", .nowhere, []⟩] ∧
    Unplaced increments ⟨.operatorMismatch "+=" "bool and int", .nowhere, []⟩ := by
  refine ⟨analyze_increments, ?_⟩
  obtain hp | ⟨-, hu⟩ := analyze_located {} (fun _ _ => .notFound) increments
    analyze_increments _ (.tail _ (.head _))
  · exact absurd hp nowhere_in_increments
  · exact hu

/-- All tokens of a program may stand in one file, and an error of its analysis at none of them. -/
theorem not_located_of_increments :
    (∀ token ∈ increments, token.span.start.file = "shell" ∧ token.span.stop.file = "shell") ∧
    ∃ errors, analyze {} (fun _ _ => .notFound) increments = .error errors ∧
      ∃ error ∈ errors, error.position = .nowhere ∧ ¬∃ token ∈ increments,
        error.position = token.span.start ∨ error.position = token.span.stop :=
  ⟨by decide, _, analyze_increments, _, .tail _ (.head _), rfl, nowhere_in_increments⟩

end MuLang
