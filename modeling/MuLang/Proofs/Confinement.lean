import MuLang.Proofs.Cursor
import MuLang.Proofs.Enclosure
import MuLang.Proofs.Seclusion

/-!
# From the head of a function to its closing brace

Between the braces of a function neither the declarations nor the scopes around it change, so where
it is closed the session is that of its head, but for what has been reported. This holds in both
passes, however faulty the statements of the function are.
-/
namespace MuLang

namespace Token

variable {place : Cursor} {tokens before body read : List Token}

/-- The words of the statement under way have been read before. -/
theorem Cursor.mem_words {word : Token} (h : word ∈ (place.move tokens).words) :
    word ∈ place.words ∨ word ∈ tokens := by
  induction tokens generalizing place with
  | nil => exact .inl h
  | cons token rest ih =>
    obtain hn | hr := ih h
    · unfold Cursor.next at hn
      split at hn
      · cases hn
      · cases hn
      · cases hn
      · simp only [List.mem_append, List.mem_singleton] at hn
        exact hn.imp_right fun hw => by simp [hw]
    · exact .inr (List.mem_cons_of_mem _ hr)

/-- A place where no module and no global can be declared. -/
def Cursor.Secluded (place : Cursor) : Prop :=
  ∃ head outer, place.heads = head :: outer ∧ blockKind head ≠ .module

/-- The tokens before some place in a text end with the brace that opens a function, and around it
there are modules. -/
structure Opens (before : List Token) : Prop where
  words_eq : (cursor before).words = []
  function : ∃ head outer, (cursor before).heads = head :: outer ∧ blockKind head = .function ∧
    ∀ head ∈ outer, blockKind head = .module

/-- Some tokens between the braces of a function: their own braces match, no module is declared
among them, and standard-library mode does not end. -/
structure Confined (before body : List Token) : Prop where
  matched : Matched body
  strata : ∀ read, read <+: body → Strata (cursor (before ++ read)).heads
  unfinished : ∀ word ∈ body, word.kind ≠ .keyword .finishWord

theorem Opens.of_strata {opening : Token} (hk : opening.kind = .openCurly)
    (hw : block? (cursor before).words = some .function)
    (hs : Strata (cursor (before ++ [opening])).heads) : Opens (before ++ [opening]) := by
  have hc : cursor (before ++ [opening]) =
      ⟨(cursor before).words :: (cursor before).heads, []⟩ := by
    rw [cursor, Cursor.move_append]
    exact Cursor.next_openCurly hk
  have hf : blockKind (cursor before).words = .function := by rw [blockKind, hw]; rfl
  rw [hc] at hs
  obtain ⟨hm, -⟩ := List.pairwise_cons.1 hs
  exact ⟨by rw [hc], _, _, by rw [hc], hf, fun head hh => hm head hh (.inr hf)⟩

theorem strays_of_isPrefix {start : Nat} (h : read <+: body) (hs : strays start body = []) :
    strays start read = [] := by
  obtain ⟨rest, rfl⟩ := h
  rw [strays_append, List.append_eq_nil_iff] at hs
  exact hs.1

/-- In a function no module and no global can be declared. -/
theorem Confined.secluded (ho : Opens before) (hb : Confined before body) (hr : read <+: body) :
    ((cursor before).move read).Secluded := by
  obtain ⟨head, outer, hheads, hk, -⟩ := ho.function
  obtain ⟨inner, hi, -⟩ := @Cursor.exists_inner read [] (cursor before) (head :: outer) hheads
    (strays_of_isPrefix hr (hb.matched 0).2)
  have hs := hb.strata read hr
  rw [cursor, Cursor.move_append] at hs
  change Strata ((cursor before).move read).heads at hs
  rw [hi] at hs
  cases inner with
  | nil => exact ⟨head, outer, hi, by simp [hk]⟩
  | cons first inner =>
    refine ⟨first, _, hi, fun hf => ?_⟩
    obtain ⟨hout, -⟩ := List.pairwise_cons.1 hs
    have := hout head (by simp) (.inl hf)
    simp [hk] at this

end Token

namespace Reading

variable {place : Token.Cursor} {reading later opened : Reading} {before body tokens : List Token}

theorem At.inner (h : reading.At place) (hs : place.Secluded) :
    reading.session.scopes.Inner := by
  obtain ⟨head, outer, hheads, hk⟩ := hs
  have hc := h.currentKind_eq
  rw [hheads] at hc
  unfold ScopeStack.Inner
  rw [hc]
  exact ⟨Token.blockKind_ne_program head, hk⟩

/-- A pass keeps its settings, and stays the pass that it is. -/
theorem settings_of_passes (h : reading.Passes tokens later) :
    later.session.settings = reading.session.settings ∧
      later.session.pass = reading.session.pass := by
  have hs := h.steps_append []
  rw [List.append_nil] at hs
  have hpass := h.isSkimming_eq
  have hg := (grows_steps reading tokens).settings_eq
  rw [hs] at hg
  refine ⟨hg, ?_⟩
  unfold Session.isSkimming at hpass
  cases hl : later.session.pass <;> cases hr : reading.session.pass <;> simp_all

/-- In a function nothing is declared that outlasts it. -/
theorem lasting_of_passes (ho : Token.Opens before) (hb : Token.Confined before body)
    (hat : opened.At (Token.cursor before)) (hp : opened.Passes tokens later)
    (ht : tokens <+: body) : later.session.lasting = opened.session.lasting := by
  induction hp with
  | start => rfl
  | @token read later token hp _ _ ih =>
    have hread : read <+: body := (List.prefix_append read [token]).trans ht
    have hlater := at_of_passes hat hp
    refine (lasting_step (hlater.inner (hb.secluded ho hread)) fun word hm => ?_).trans (ih hread)
    refine hb.unfinished word (ht.subset ?_)
    rw [hlater.current_eq] at hm
    obtain hm | hm := List.mem_append.1 hm
    · obtain hw | hw := Token.Cursor.mem_words hm
      · rw [ho.words_eq] at hw
        cases hw
      · exact List.mem_append_left _ hw
    · exact List.mem_append_right _ hm

/-- In a function only the scopes and the log change. -/
theorem session_of_passes (ho : Token.Opens before) (hb : Token.Confined before body)
    (hat : opened.At (Token.cursor before)) (hp : opened.Passes body later) :
    later.session = { opened.session with
      scopes := later.session.scopes, log := later.session.log } := by
  have hl := lasting_of_passes ho hb hat hp (List.prefix_refl body)
  obtain ⟨hs, hpass⟩ := settings_of_passes hp
  unfold Session.lasting at hl
  obtain ⟨ht, hd, hm⟩ := by simpa using hl
  rcases h : later.session with ⟨settings, pass, table, scopes, stdlib, deferred, log⟩
  rw [h] at hs hpass ht hd hm
  simp_all

/-- Where a function is closed, the session is that of its head without the scope of the function,
but for what has been reported, and its statements are those between its braces. -/
theorem step_closing {owner : Owner} {outer : List (Owner × Body)} {closing : Token}
    (ho : Token.Opens before) (hb : Token.Confined before body)
    (hat : opened.At (Token.cursor before)) (htidy : opened.Tidy)
    (hblocks : opened.blocks = (owner, {}) :: outer) (hp : opened.Passes body later)
    (hlater : later.Tidy) (hw : ((Token.cursor before).move body).words = [])
    (hk : closing.kind = .closeCurly) :
    ∃ scopes, opened.session.scopes.popBlock? = some scopes ∧
      later.step closing = ({ opened with
        session := { opened.session with scopes, log := later.session.log }
        blocks := outer }).changeBody (·.close owner later.body.statements) := by
  have hcurrent : opened.current = [] := hat.current_eq.trans ho.words_eq
  have hdone : later.current = [] := (at_of_passes hat hp).current_eq.trans hw
  have hbalanced := hat.balanced
  rw [Balanced, hblocks] at hbalanced
  obtain ⟨scopes, hpop, -⟩ := hbalanced.popBlock
  -- From inside, the function is a program of its own.
  let enclosure : Enclosure := ⟨opened.program, owner, [], outer⟩
  let inside : Reading := { session := opened.session }
  have hinside : opened = enclosure.enclose inside := by
    rcases opened with ⟨session, program, blocks, current⟩
    obtain rfl := hblocks
    obtain rfl := hcurrent
    rfl
  obtain ⟨inner, hinner, hend⟩ := @Enclosure.exists_passes enclosure inside body later
    (hinside ▸ hp) Body.grounded_empty (hb.matched 0).2
  obtain ⟨hclosed, hbare⟩ := bare_of_matched hinner hb.matched rfl hat.balanced.head?_ne
  have hsession := session_of_passes ho hb hat hp
  -- Outside of it there are no locals, and its scope is all that was entered.
  obtain ⟨left, hleft, hscopes⟩ : ∃ left, later.session.scopes.popBlock? = some left ∧
      left = scopes := by
    have hsame : later.session.scopes.bare = opened.session.scopes.bare := by rw [hend]; exact hbare
    have hl := ScopeStack.bare_popBlock? later.session.scopes
    rw [hsame, ← ScopeStack.bare_popBlock?, hpop] at hl
    obtain ⟨left, hl, hbare⟩ := Option.map_eq_some_iff.1 hl
    refine ⟨left, hl, ?_⟩
    refine ((ScopeStack.Tidy.popBlock? htidy hpop).eq_of_bare_eq
      (ScopeStack.Tidy.popBlock? hlater hl) ?_ hbare.symm).symm
    obtain ⟨head, heads, hheads, -, hmodules⟩ := ho.function
    have hkinds := ScopeStack.blockKinds_popBlock? hbalanced hpop
    rw [hat.blockKinds_eq, hheads, List.map_cons, List.tail_cons] at hkinds
    rw [← Bool.not_eq_true, ScopeStack.inFunction_iff, hkinds, List.mem_map]
    rintro ⟨head, hm, hf⟩
    rw [hmodules head hm] at hf
    cases hf
  subst hscopes
  refine ⟨left, hpop, ?_⟩
  have hstep : later.step closing = later.closeBlock closing := by
    simp [step, hk, hdone]
  have hfinal : later.blocks = (owner, inner.program) :: outer := by
    rw [hend, Enclosure.enclose, hclosed]
    rfl
  have hprogram : later.program = opened.program := by rw [hend]; rfl
  have hbody : later.body = inner.program := by rw [body_eq, hfinal]; rfl
  rw [hstep, hbody]
  unfold closeBlock
  simp only [hfinal, hleft]
  unfold changeScopes
  rw [hsession, hprogram, hdone, hcurrent]

end Reading

end MuLang
