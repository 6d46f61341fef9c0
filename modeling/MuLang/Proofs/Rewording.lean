import MuLang.Proofs.Admissible
import MuLang.Proofs.Cursor
import MuLang.Proofs.Lines
import MuLang.Proofs.Places.Sameness

/-!
# Rewordings

Where one statement of a text, or the head of one block, is put in other words that do the same
step, no pass tells the two texts apart: they are both accepted with the same outcome, or both are
rejected for the same causes.
-/
namespace MuLang

/-! ## Outcomes that agree -/

/-- Two outcomes of an analysis agree: both have the same statements and the same table but for
places, or both have errors of the same causes in the same order. -/
def Analysis.Agree : Except (List Error) Analysis → Except (List Error) Analysis → Prop
  | .ok analysis, .ok other =>
    Stmt.sameAll analysis.program other.program ∧ analysis.symbols.same other.symbols
  | .error errors, .error more => errors.map (·.cause) = more.map (·.cause)
  | _, _ => False

variable {settings : Settings} {natives : Native.Bindings} {tokens others : List Token}

theorem Analysis.agree_of_stripped
    (h : analyze settings natives (tokens.map Token.stripped) =
      analyze settings natives (others.map Token.stripped)) :
    Agree (analyze settings natives tokens) (analyze settings natives others) := by
  rw [analyze_stripped, analyze_stripped] at h
  rcases hfirst : analyze settings natives tokens with errors | analysis <;>
    rcases hsecond : analyze settings natives others with more | other <;>
    rw [hfirst, hsecond] at h
  · have hcauses := congrArg (List.map Error.cause) (Except.error.inj h)
    rwa [List.map_map, List.map_map] at hcauses
  · cases h
  · cases h
  · obtain ⟨hprogram, hsymbols⟩ := Analysis.mk.inj (Except.ok.inj h)
    have hpaths := nodup_paths_of_define (analyze_eq_ok.1 hfirst).2
    exact ⟨Stmt.sameAll_iff.2 hprogram, SymbolTable.same_of_stripped hpaths hsymbols⟩

/-! ## Readings of two texts -/

namespace Reading

variable {reading : Reading} {start words more rest : List Token} {stop : Token}

theorem steps_of_isClosed (hc : reading.session.log.isClosed) (tokens : List Token) :
    reading.steps tokens = reading := by
  cases tokens <;> simp [steps, hc]

/-- Two texts that begin alike are read alike if they are so from the end of their common part. -/
theorem steps_append_congr
    (h : ∀ later, reading.Passes start later → later.steps tokens = later.steps others) :
    reading.steps (start ++ tokens) = reading.steps (start ++ others) := by
  obtain ⟨read, left, rfl, hp, hend⟩ := exists_passes_steps reading start
  generalize reading.steps (read ++ left) = point at hp hend
  cases left with
  | nil =>
    rw [List.append_nil] at h ⊢
    rw [hp.steps_append, hp.steps_append]
    exact h _ hp
  | cons next left =>
    -- The pass ends at `next`, whatever comes after it.
    have hends (tokens : List Token) : point.steps (next :: tokens) = point := by
      rw [steps, if_pos]
      simpa using hend next rfl
    rw [List.append_assoc, List.append_assoc, hp.steps_append, hp.steps_append, List.cons_append,
      hends, List.cons_append, hends]

/-- Where the token after some words does what it does after other words, both are read alike. -/
theorem steps_unbroken_congr (hw : Token.Unbroken words) (hm : Token.Unbroken more)
    (hs : stop.kind ≠ .endOfFile)
    (h : { reading with current := reading.current ++ words }.step stop =
      { reading with current := reading.current ++ more }.step stop) :
    reading.steps (words ++ stop :: rest) = reading.steps (more ++ stop :: rest) := by
  cases ho : reading.session.log.isClosed with
  | true => rw [steps_of_isClosed ho, steps_of_isClosed ho]
  | false =>
    have hstop (current : List Token) : { reading with current }.steps (stop :: rest) =
        ({ reading with current }.step stop).steps rest :=
      (Passes.single (by exact ho) hs).steps_append rest
    rw [(passes_of_unbroken ho hw).steps_append, (passes_of_unbroken ho hm).steps_append, hstop,
      hstop, h]

/-- A statement in other words, of which the second do the same as the first. -/
theorem steps_line (hw : Token.Unbroken words) (hm : Token.Unbroken more)
    (hs : stop.kind = .semicolon)
    (h : Step.closed (reading.current ++ words ++ [stop]) =
      Step.closed (reading.current ++ more ++ [stop])) :
    reading.steps (words ++ stop :: rest) = reading.steps (more ++ stop :: rest) := by
  refine steps_unbroken_congr hw hm (by simp [hs]) ?_
  unfold step
  simp only [hs]
  unfold endStatement
  rw [h]

/-- The head of a block in other words, of which the second do the same as the first. -/
theorem steps_head (hw : Token.Unbroken words) (hm : Token.Unbroken more)
    (hs : stop.kind = .openCurly)
    (hb : Token.block? (reading.current ++ words ++ [stop]) =
      Token.block? (reading.current ++ more ++ [stop]))
    (h : ∀ chain, Step.owner chain (reading.current ++ words ++ [stop]) =
      Step.owner chain (reading.current ++ more ++ [stop])) :
    reading.steps (words ++ stop :: rest) = reading.steps (more ++ stop :: rest) := by
  refine steps_unbroken_congr hw hm (by simp [hs]) ?_
  unfold step
  simp only [hs]
  unfold openBlock
  rw [h, hb]

end Reading

/-! ## Statements told by their first word -/

namespace Token

instance (tokens : List Token) : Decidable (Ended tokens) :=
  inferInstanceAs (Decidable (∀ last ∈ tokens.getLast?, last.kind.isBreak))

instance (tokens : List Token) : Decidable (Unbroken tokens) :=
  inferInstanceAs (Decidable (∀ token ∈ tokens, token.kind.isBreak = false))

variable {modifiers : List Token} {first : Token}

theorem AreModifiers.stripped (hm : AreModifiers modifiers) :
    AreModifiers (modifiers.map Token.stripped) := by
  intro token ht
  obtain ⟨modifier, h, rfl⟩ := List.mem_map.1 ht
  exact hm modifier h

theorem AreModifiers.unbroken (hm : AreModifiers modifiers) : Unbroken modifiers := by
  intro token ht
  have h := hm token ht
  cases hk : token.kind <;> simp_all [Kind.isModifier, Kind.modifier?, Kind.isBreak]

theorem leadingModifiers_append (hm : AreModifiers modifiers) (hf : first.kind.isModifier = false)
    (more : List Token) : leadingModifiers (modifiers ++ first :: more) = modifiers := by
  rw [leadingModifiers, List.takeWhile_append_of_pos hm, List.takeWhile_cons_of_neg (by simp [hf]),
    List.append_nil]

theorem afterModifiers_append (hm : AreModifiers modifiers) (hf : first.kind.isModifier = false)
    (more : List Token) : afterModifiers (modifiers ++ first :: more) = first :: more := by
  rw [afterModifiers, List.dropWhile_append_of_pos hm, List.dropWhile_cons_of_neg (by simp [hf])]

theorem block?_append_cons (hm : AreModifiers modifiers) (hf : first.kind.isModifier = false)
    (more : List Token) : block? (modifiers ++ first :: more) = first.kind.block? := by
  rw [block?, afterModifiers_append hm hf]
  rfl

end Token

namespace Step

variable {modifiers : List Token} {first : Token}

/-- A statement that begins with a name is an action. -/
theorem closed_identifier (hm : Token.AreModifiers modifiers) (hk : first.kind = .identifier)
    (more : List Token) : closed (modifiers ++ first :: more) =
      Option.map Stmt.action <$> actionStatement (first :: more) modifiers := by
  have hf : first.kind.isModifier = false := by rw [hk]; rfl
  unfold closed statement
  rw [Token.block?_append_cons hm hf, Token.leadingModifiers_append hm hf,
    Token.afterModifiers_append hm hf]
  simp only [hk]
  rfl

/-- A head that begins with `for` is that of a loop. -/
theorem owner_for (hm : Token.AreModifiers modifiers) (hk : first.kind = .keyword .forWord)
    (chain : Chain) (more : List Token) : owner chain (modifiers ++ first :: more) =
      Option.map Owner.statement <$> forStatement (first :: more) modifiers := by
  have hf : first.kind.isModifier = false := by rw [hk]; rfl
  unfold owner statement
  rw [Token.block?_append_cons hm hf, Token.leadingModifiers_append hm hf,
    Token.afterModifiers_append hm hf]
  simp [hk, Kind.block?]

end Step

/-! ## Texts that no pass tells apart -/

/-- Without their places, no pass tells two texts apart. -/
def Token.ReadAlike (tokens others : List Token) : Prop := ∀ session pass,
  (Reading.start session pass).steps (tokens.map stripped) =
    (Reading.start session pass).steps (others.map stripped)

namespace Token.ReadAlike

theorem readPass_eq (h : ReadAlike tokens others) (session : Session) (pass : Pass) :
    session.readPass pass (tokens.map stripped) = session.readPass pass (others.map stripped) := by
  have hplace (tokens : List Token) :
      (((tokens.map stripped).getLast?).map (·.span.start)).getD .nowhere = .nowhere := by
    rw [List.getLast?_map]
    cases tokens.getLast? <;> rfl
  unfold Session.readPass Reading.finish Reading.reportUnclosed
  rw [h, hplace, hplace]

theorem analyze_eq (h : ReadAlike tokens others) (settings : Settings)
    (natives : Native.Bindings) : analyze settings natives (tokens.map stripped) =
      analyze settings natives (others.map stripped) := by
  unfold analyze parse Session.skim
  simp only [h.readPass_eq]

variable {before words more after : List Token} {stop : Token}

/-- No words of a statement have been read where none is under way. -/
theorem current_eq_nil {session : Session} {pass : Pass} {later : Reading}
    (hb : Ended before) (h : (Reading.start session pass).Passes before later) :
    later.current = [] := by
  rw [(Reading.at_of_passes (Reading.at_start session pass) h).current_eq]
  rcases List.eq_nil_or_concat before with rfl | ⟨first, last, rfl⟩
  · rfl
  · have hbreak := hb last (by simp)
    have hnoend := h.no_end last (by simp)
    rw [List.concat_eq_append, Cursor.move_append, Cursor.move_cons, Cursor.move_nil]
    unfold Cursor.next
    split
    · rfl
    · rfl
    · rfl
    · unfold Kind.isBreak at hbreak
      split at hbreak <;> simp_all

theorem ended_stripped (h : Ended before) : Ended (before.map stripped) := by
  intro last hl
  rw [List.getLast?_map] at hl
  obtain ⟨token, ht, rfl⟩ := Option.map_eq_some_iff.1 hl
  exact h token ht

theorem unbroken_stripped (h : Unbroken words) : Unbroken (words.map stripped) := by
  intro word hw
  obtain ⟨token, ht, rfl⟩ := List.mem_map.1 hw
  exact h token ht

/-- One statement is put in other words. -/
theorem line (hb : Ended before) (hw : Unbroken words) (hm : Unbroken more)
    (hs : stop.kind = .semicolon)
    (h : Step.closed ((words ++ [stop]).map stripped) =
      Step.closed ((more ++ [stop]).map stripped)) :
    ReadAlike (before ++ (words ++ stop :: after)) (before ++ (more ++ stop :: after)) := by
  intro session pass
  simp only [List.map_append, List.map_cons, List.map_nil] at h ⊢
  refine Reading.steps_append_congr fun later hp => ?_
  have hnone := current_eq_nil (ended_stripped hb) hp
  exact Reading.steps_line (unbroken_stripped hw) (unbroken_stripped hm) hs (by simpa [hnone] using h)

/-- The head of one block is put in other words. -/
theorem head (hb : Ended before) (hw : Unbroken words) (hm : Unbroken more)
    (hs : stop.kind = .openCurly) (hk : block? (words ++ [stop]) = block? (more ++ [stop]))
    (h : ∀ chain, Step.owner chain ((words ++ [stop]).map stripped) =
      Step.owner chain ((more ++ [stop]).map stripped)) :
    ReadAlike (before ++ (words ++ stop :: after)) (before ++ (more ++ stop :: after)) := by
  rw [← block?_stripped, ← block?_stripped (more ++ [stop])] at hk
  intro session pass
  simp only [List.map_append, List.map_cons, List.map_nil] at h hk ⊢
  refine Reading.steps_append_congr fun later hp => ?_
  have hnone := current_eq_nil (ended_stripped hb) hp
  exact Reading.steps_head (unbroken_stripped hw) (unbroken_stripped hm) hs
    (by simpa [hnone] using hk) (by simpa [hnone] using h)

variable {modifiers : List Token} {first : Token}

/-- One action is put in other words. -/
theorem action (hb : Ended before) (hm : AreModifiers modifiers) (hk : first.kind = .identifier)
    (hw : Unbroken words) (hu : Unbroken more) (hs : stop.kind = .semicolon)
    (h : ∀ modifiers, Step.actionStatement ((first :: (words ++ [stop])).map stripped) modifiers =
      Step.actionStatement ((first :: (more ++ [stop])).map stripped) modifiers) :
    ReadAlike (before ++ (modifiers ++ first :: (words ++ stop :: after)))
      (before ++ (modifiers ++ first :: (more ++ stop :: after))) := by
  have hfirst : first.kind.isBreak = false := by rw [hk]; rfl
  have hunbroken {words : List Token} (hw : Unbroken words) :
      Unbroken (modifiers ++ first :: words) :=
    List.forall_mem_append.2 ⟨hm.unbroken, List.forall_mem_cons.2 ⟨hfirst, hw⟩⟩
  have hclosed (words : List Token) :
      Step.closed ((modifiers ++ first :: words ++ [stop]).map stripped) =
        Option.map Stmt.action <$> Step.actionStatement
          ((first :: (words ++ [stop])).map stripped) (modifiers.map stripped) := by
    rw [List.append_assoc, List.map_append]
    exact @Step.closed_identifier _ first.stripped hm.stripped hk _
  have hline := @line before _ _ after stop hb (hunbroken hw) (hunbroken hu) hs
    (by rw [hclosed, hclosed, h])
  simpa only [List.append_assoc, List.cons_append] using hline

/-- The head of one `for` is put in other words. -/
theorem loop (hb : Ended before) (hm : AreModifiers modifiers)
    (hk : first.kind = .keyword .forWord) (hw : Unbroken words) (hu : Unbroken more)
    (hs : stop.kind = .openCurly)
    (h : ∀ modifiers, Step.forStatement ((first :: (words ++ [stop])).map stripped) modifiers =
      Step.forStatement ((first :: (more ++ [stop])).map stripped) modifiers) :
    ReadAlike (before ++ (modifiers ++ first :: (words ++ stop :: after)))
      (before ++ (modifiers ++ first :: (more ++ stop :: after))) := by
  have hfirst : first.kind.isBreak = false := by rw [hk]; rfl
  have hunbroken {words : List Token} (hw : Unbroken words) :
      Unbroken (modifiers ++ first :: words) :=
    List.forall_mem_append.2 ⟨hm.unbroken, List.forall_mem_cons.2 ⟨hfirst, hw⟩⟩
  have hblock (words : List Token) :
      block? (modifiers ++ first :: words ++ [stop]) = some .forBlock := by
    rw [List.append_assoc, List.cons_append, block?_append_cons hm (by rw [hk]; rfl), hk]
    rfl
  have howner (chain : Chain) (words : List Token) :
      Step.owner chain ((modifiers ++ first :: words ++ [stop]).map stripped) =
        Option.map Owner.statement <$> Step.forStatement
          ((first :: (words ++ [stop])).map stripped) (modifiers.map stripped) := by
    rw [List.append_assoc, List.map_append]
    exact @Step.owner_for _ first.stripped hm.stripped hk chain _
  have hhead := @head before _ _ after stop hb (hunbroken hw) (hunbroken hu) hs
    (by rw [hblock, hblock]) fun chain => by rw [howner, howner, h]
  simpa only [List.append_assoc, List.cons_append] using hhead

end Token.ReadAlike

end MuLang
