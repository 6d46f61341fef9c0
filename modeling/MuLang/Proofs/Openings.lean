import MuLang.Proofs.Rewording

/-!
# Blocks that are opened

In a text that is parsed without an error, whatever opens a block in the second pass is in the
program, and the block belongs to it there.
-/
namespace MuLang

mutual

/-- What the blocks of a statement belong to, as they are written. -/
def Written.owners : Written → List Owner
  | .line _ => []
  | .block owner body => owner :: Written.ownersIn body

/-- What the blocks of some statements belong to. -/
def Written.ownersIn : List Written → List Owner
  | [] => []
  | written :: rest => written.owners ++ Written.ownersIn rest

end

namespace Written

theorem ownersIn_append (first second : List Written) :
    ownersIn (first ++ second) = ownersIn first ++ ownersIn second := by
  induction first with
  | nil => rfl
  | cons written rest ih => rw [List.cons_append, ownersIn, ownersIn, ih, List.append_assoc]

end Written

namespace Reading

variable {reading later opened : Reading} {read more : List Token} {token : Token} {owner : Owner}

/-- A block belongs to something if it is open, or has been closed inside of what is read. -/
def Has (reading : Reading) (owner : Owner) : Prop :=
  owner ∈ Written.ownersIn (Stmt.writtenAll reading.program.statements) ∨
    ∃ block ∈ reading.blocks, owner = block.1 ∨
      owner ∈ Written.ownersIn (Stmt.writtenAll block.2.statements)

/-- What a block belongs to stays where the innermost body only grows. -/
theorem Has.changeBody (h : reading.Has owner) {change : Body → Body}
    (hc : ∃ more, Stmt.writtenAll (change reading.body).statements =
      Stmt.writtenAll reading.body.statements ++ more) : (reading.changeBody change).Has owner := by
  obtain ⟨more, hc⟩ := hc
  rcases reading with ⟨session, program, _ | ⟨⟨first, body⟩, blocks⟩, current⟩
  · refine h.imp_left fun hp => ?_
    change owner ∈ Written.ownersIn (Stmt.writtenAll (change program).statements)
    have hwritten : Stmt.writtenAll (change program).statements = _ := hc
    rw [hwritten, Written.ownersIn_append]
    exact List.mem_append_left _ hp
  · refine h.imp_right ?_
    rintro ⟨block, hm, hblock⟩
    obtain rfl | hm := List.mem_cons.1 hm
    · refine ⟨(first, change body), .head _, hblock.imp_right fun hb => ?_⟩
      have hwritten : Stmt.writtenAll (change body).statements = _ := hc
      rw [hwritten, Written.ownersIn_append]
      exact List.mem_append_left _ hb
    · exact ⟨block, .tail _ hm, hblock⟩

/-- What is in the innermost body after it has changed is there. -/
theorem has_changeBody {change : Body → Body}
    (h : owner ∈ Written.ownersIn (Stmt.writtenAll (change reading.body).statements)) :
    (reading.changeBody change).Has owner := by
  rcases reading with ⟨session, program, _ | ⟨⟨first, body⟩, blocks⟩, current⟩
  · exact .inl h
  · exact .inr ⟨(first, change body), .head _, .inr h⟩

/-- While nothing is reported no block is lost. -/
theorem has_step (h : reading.Faithful read) (hc : (reading.step token).session.log.Clean)
    (ho : reading.Has owner) : (reading.step token).Has owner := by
  by_cases hsemicolon : token.kind = .semicolon
  · unfold Reading.step at hc ⊢
    simp only [hsemicolon] at hc ⊢
    obtain ⟨result, session, -, he⟩ := endStatement_of_clean hc
    rw [he]
    exact Has.changeBody (by exact ho) ⟨_, Stmt.writtenAll_append _ result.toList⟩
  by_cases hopen : token.kind = .openCurly
  · unfold Reading.step at hc ⊢
    simp only [hopen] at hc ⊢
    obtain ⟨result, session, -, he⟩ := openBlock_of_clean hc
    rw [he]
    exact ho.imp_right fun ⟨block, hm, hblock⟩ => ⟨block, .tail _ hm, hblock⟩
  by_cases hclose : token.kind = .closeCurly
  · obtain ⟨hcurrent, hstep⟩ := step_closeCurly_of_clean hclose hc
    rw [hstep] at hc ⊢
    obtain ⟨first, inside, blocks, scopes, hblocks, -, he⟩ := closeBlock_of_clean hc
    obtain ⟨before, -, hcovered⟩ := h
    rw [hblocks] at hcovered
    cases hcovered with
    | inside houter whole opens hspelled hbranch hbody =>
      obtain ⟨-, hclosed⟩ := houter.chained.close hspelled hbranch inside.statements
      rw [← body_eq { reading with session := { reading.session with scopes }, blocks }] at hclosed
      rw [he]
      obtain hprogram | ⟨block, hm, hblock⟩ := ho
      · refine Has.changeBody ?_ ⟨_, hclosed⟩
        exact .inl hprogram
      rw [hblocks] at hm
      obtain rfl | hm := List.mem_cons.1 hm
      · refine has_changeBody ?_
        rw [hclosed, Written.ownersIn_append]
        refine List.mem_append_right _ ?_
        simpa [Written.ownersIn, Written.owners] using hblock
      · refine Has.changeBody ?_ ⟨_, hclosed⟩
        exact .inr ⟨block, hm, hblock⟩
  · have hstep : reading.step token = { reading with current := reading.current ++ [token] } := by
      unfold Reading.step
      split <;> first | contradiction | rfl
    rw [hstep]
    exact ho

/-- What a block belongs to where it is opened, a block of the program belongs to. -/
theorem has_of_passes {session : Session} (hread : (start session .evaluate).Passes read opened)
    (h : opened.Passes more later) (hc : later.session.log.Clean) (ho : opened.Has owner) :
    later.Has owner := by
  induction h with
  | start => exact ho
  | @token read later token h _ _ ih =>
    have hclean := (extends_step later token).clean hc
    exact has_step (faithful_of_passes (hread.trans h) hclean) hc (ih hclean)

end Reading

/-- In a text that is parsed without an error the second pass accepts what stands before an opening
brace, and the block belongs to it in the program. -/
theorem exists_owner_of_parse {settings : Settings} {before words after : List Token} {stop : Token}
    {program : List Stmt} (hb : settings.maxErrors ≠ some 0)
    (h : parse settings (before ++ (words ++ stop :: after)) = (some program, []))
    (hend : ∀ token ∈ before, token.kind ≠ .endOfFile) (he : Token.Ended before)
    (hw : Token.Unbroken words) (hs : stop.kind = .openCurly) :
    ∃ reading owner t, (Reading.start (.skim settings (before ++ (words ++ stop :: after)))
        .evaluate).Passes before reading ∧
      Step.owner reading.body.chain (words ++ [stop]) reading.session = (.ok (some owner), t) ∧
      owner ∈ Written.ownersIn (Stmt.writtenAll program) := by
  obtain ⟨-, hclean, hblocks, -, hprogram⟩ := evaluated_of_parse hb h
  have hpasses := Reading.passes_steps_of_open hclean.isClosed_eq
  have hread : (before ++ (words ++ stop :: after)).takeWhile (·.kind ≠ .endOfFile) =
      before ++ (words ++ ([stop] ++ after.takeWhile (·.kind ≠ .endOfFile))) := by
    have hwords : ∀ token ∈ words, token.kind ≠ .endOfFile := fun token ht hk => by
      simpa [hk, Kind.isBreak] using hw token ht
    rw [List.takeWhile_append_of_pos (by simpa using hend), List.takeWhile_append_of_pos
      (by simpa using hwords), List.takeWhile_cons_of_pos (by simp [hs]), List.singleton_append]
  rw [hread] at hpasses
  obtain ⟨reading, hbefore, hpasses⟩ := hpasses.split
  obtain ⟨point, hwords, hpasses⟩ := hpasses.split
  obtain ⟨opened, hopen, hpasses⟩ := hpasses.split
  have hopened := hpasses.extends_log.clean hclean
  obtain rfl := hwords.of_unbroken hw
  obtain rfl := hopen.of_single
  have hstep : Reading.step { reading with current := reading.current ++ words } stop =
      { reading with current := [] }.openBlock (words ++ [stop]) := by
    simp only [Reading.step, hs, Token.ReadAlike.current_eq_nil he hbefore, List.nil_append]
  have hread := hbefore.trans (hwords.trans hopen)
  rw [hstep] at hopened hpasses hread
  obtain ⟨result, t, hr, hblock⟩ := Reading.openBlock_of_clean hopened
  obtain ⟨owner, rfl, -⟩ := Step.spelled_owner hbefore.isSkimming_eq hw hs hr
  refine ⟨reading, owner, t, hbefore, hr, ?_⟩
  have hopens : ({ reading with current := [] }.openBlock (words ++ [stop])).Has owner := by
    rw [hblock]
    exact .inr ⟨_, .head _, .inl rfl⟩
  obtain hhas | ⟨block, hm, -⟩ := Reading.has_of_passes hread hpasses hclean hopens
  · rwa [hprogram] at hhas
  · rw [hblocks] at hm
    cases hm

end MuLang
