import MuLang.Proofs.Course

/-!
# What the second pass writes

Where the second pass reports nothing, a line adds the statement that it says to those of its block,
and a block adds itself with what it belongs to. So the statements of a program are written by its
items one after the other, each from the session that the items before it have left, and what holds
of each line and of each head holds of the program.
-/
namespace MuLang

namespace Item

/-- From a session of the second pass some items lead to a later one, and write some lines and
blocks. -/
inductive Writes : Session → List Item → Session → List Written → Prop
  | nil {s : Session} : Writes s [] s []
  | line {s t u : Session} {items : List Item} {words : List Token} {stop : Token}
      {whole : Token.Unbroken words} {stops : stop.kind = .semicolon} {result : Option Stmt}
      {more : List Written} : s.isSkimming = false →
      Step.closed (words ++ [stop]) s = (.ok result, t) → t.frame = s.frame →
      Writes t items u more →
      Writes s (.line words stop whole stops :: items) u (result.toList.map .line ++ more)
  | block {s t u v : Session} {inner items : List Item} {head : List Token} {opening closing : Token}
      {whole : Token.Unbroken head} {opens : opening.kind = .openCurly}
      {closes : closing.kind = .closeCurly} {chain : Chain} {owner : Owner} {scopes : ScopeStack}
      {body more : List Written} : s.isSkimming = false →
      Step.owner chain (head ++ [opening]) s = (.ok (some owner), t) → owner.Spelled head →
      Writes (t.inside s.scopes (Token.openedKind head opening)) inner u body →
      Session.frame { u with scopes } = s.frame → Writes { u with scopes } items v more →
      Writes s (.block head opening inner closing whole opens closes :: items) v
        (.block owner body :: more)

/-- What items lead to in the second pass is what they write. -/
theorem Leads.writes {s t : Session} {body after : Body} {items : List Item}
    (h : Leads s body items t after) (hs : s.isSkimming = false)
    (hk : s.scopes.kinds.head? ≠ some .loopHeader) (hb : body.Chained) :
    ∃ written, Writes s items t written ∧ Stmt.writtenAll after.statements =
      Stmt.writtenAll body.statements ++ written := by
  induction h with
  | nil => exact ⟨[], .nil, (List.append_nil _).symm⟩
  | @line s t u body after items words stop whole stops result hr _ ih =>
    have hf : t.frame = s.frame := by
      have hf := (Step.commits_closed (words ++ [stop])).moved s
      rw [hr] at hf
      exact hf.symm
    have hkinds : t.scopes.kinds = s.scopes.kinds := by
      rw [← Reading.kinds_frame, hf, Reading.kinds_frame]
    obtain ⟨written, hw, hmore⟩ :=
      ih ((Session.isSkimming_of_frame hf).trans hs) (hkinds ▸ hk) .closed
    refine ⟨_, .line hs hr hf hw, ?_⟩
    have hone : Stmt.writtenAll result.toList = result.toList.map Written.line := by
      obtain ⟨-, rfl⟩ | ⟨stmt, rfl, hspelled⟩ := Step.spelled_closed hs whole stops hr
      · rfl
      · simp [Stmt.writtenAll, hspelled.written_eq]
    rw [hmore, Body.add, Stmt.writtenAll_append, hone, List.append_assoc]
  | @block s t u v body inside after inner items head opening closing whole opens closes owner
      scopes hr hinner hpop hrest ihi ih =>
    obtain ⟨owner, rfl, hspelled, hbranch⟩ := Step.spelled_owner hs whole opens hr
    obtain ⟨hchained, hclose⟩ := hb.close hspelled hbranch inside.statements
    obtain ⟨fresh, hframe, -⟩ := Step.frame_inside hr
    have hone : Leads s body [.block head opening inner closing whole opens closes]
      { u with scopes } _ := .block hr hinner hpop .nil
    have hleft := hone.frame_eq hk
    have hkinds : scopes.kinds = s.scopes.kinds := by
      rw [← Reading.kinds_frame s, ← hleft, Reading.kinds_frame]
    have hskim : t.isSkimming = false := by
      have hpass : t.pass = s.pass := congrArg Frame.pass hframe
      rw [Session.isSkimming, hpass]
      exact hs
    obtain ⟨written, hw, hwritten⟩ := ihi hskim (Step.head?_inside hr) .closed
    obtain ⟨more, hm, hmore⟩ := ih ((Session.isSkimming_of_frame hleft).trans hs) (hkinds ▸ hk) hchained
    refine ⟨_, .block hs hr hspelled hw hleft hm, ?_⟩
    have hnone : Stmt.writtenAll ({} : Body).statements = [] := rfl
    rw [hnone, List.nil_append] at hwritten
    rw [hmore, Option.getD_some, hclose, hwritten, List.append_assoc, List.singleton_append]

end Item

/-- A program that is parsed without an error is what the items of its text write. -/
theorem exists_writes_of_parse {settings : Settings} {tokens : List Token} {program : List Stmt}
    (hb : settings.maxErrors ≠ some 0) (h : parse settings tokens = (some program, [])) :
    ∃ items t, tokens.takeWhile (·.kind ≠ .endOfFile) = Item.tokensOf items ∧
      Item.Writes (Reading.start (Session.skim settings tokens) .evaluate).session items t
        (Stmt.writtenAll program) := by
  obtain ⟨items, t, chain, hread, -, hleads⟩ := exists_leads_of_parse hb h
  have hk : (Reading.start (Session.skim settings tokens) .evaluate).session.scopes.kinds.head? ≠
      some .loopHeader := by simp [Reading.start, ScopeStack.initial, ScopeStack.kinds]
  obtain ⟨written, hw, hwritten⟩ := hleads.writes rfl hk .closed
  rw [show Stmt.writtenAll ({} : Body).statements = [] from rfl, List.nil_append] at hwritten
  exact ⟨items, t, hread, hwritten ▸ hw⟩

end MuLang
