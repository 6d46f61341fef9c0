import MuLang.Proofs.Course

/-!
# Lines of a text

A text whose braces match is a list of items in one way alone: a statement ends where it first can,
and a block at the brace that matches its own. So what stands in a text between two ends of
statements is an item, or is inside of one.
-/
namespace MuLang

namespace Token

variable {tokens more words others rest after : List Token} {token stop : Token}

/-- No statement is under way after some tokens: the last of them ends a statement, or begins or
ends a block. -/
def Ended (tokens : List Token) : Prop := ∀ last ∈ tokens.getLast?, last.kind.isBreak

theorem ended_nil : Ended [] := nofun

theorem Ended.of_append {before : List Token} (h : Ended (before ++ token :: tokens)) :
    Ended tokens :=
  fun last hl => h last (List.mem_getLast?_append_of_mem_getLast? (List.mem_getLast?_cons hl))

/-- Some tokens of a text are a line, up to its `;`, before which no statement is under way. -/
def IsLine (tokens line : List Token) : Prop :=
  ∃ before words stop after, tokens = before ++ (words ++ stop :: after) ∧ line = words ++ [stop] ∧
    Ended before ∧ Unbroken words ∧ stop.kind = .semicolon

/-- A statement ends where it first can. -/
theorem Unbroken.append_cons_inj (hw : Unbroken words) (ho : Unbroken others)
    (hs : stop.kind.isBreak) (ht : token.kind.isBreak)
    (h : words ++ stop :: rest = others ++ token :: after) :
    words = others ∧ stop = token ∧ rest = after := by
  induction words generalizing others with
  | nil =>
    cases others with
    | nil => simpa using h
    | cons other others =>
      obtain ⟨rfl, -⟩ := List.cons.inj h
      rw [(List.forall_mem_cons.1 ho).1] at hs
      cases hs
  | cons word words ih =>
    obtain ⟨hword, hwords⟩ := List.forall_mem_cons.1 hw
    cases others with
    | nil =>
      obtain ⟨rfl, -⟩ := List.cons.inj h
      rw [hword] at ht
      cases ht
    | cons other others =>
      obtain ⟨rfl, hrest⟩ := List.cons.inj h
      obtain ⟨rfl, hend⟩ := ih hwords (List.forall_mem_cons.1 ho).2 hrest
      exact ⟨rfl, hend⟩

/-- What ends a statement goes at least as far as its end. -/
theorem Unbroken.exists_before {before : List Token} (hw : Unbroken words)
    (hb : Ended before) (hn : before ≠ []) (h : words ++ stop :: rest = before ++ after) :
    ∃ later, before = words ++ stop :: later ∧ rest = later ++ after ∧ Ended later := by
  obtain ⟨last, hm, hbreak⟩ : ∃ last ∈ before, last.kind.isBreak :=
    ⟨_, List.getLast_mem hn, hb _ (List.getLast?_eq_some_getLast hn)⟩
  have hne : last ∉ words := by
    intro hword
    rw [hw _ hword] at hbreak
    cases hbreak
  obtain ⟨more, rfl, hmore⟩ | ⟨more, rfl, -⟩ := List.append_eq_append_iff.1 h
  · cases more with
    | nil =>
      rw [List.append_nil] at hm
      exact absurd hm hne
    | cons first later =>
      obtain ⟨rfl, rfl⟩ := List.cons.inj hmore
      exact ⟨later, rfl, rfl, hb.of_append⟩
  · exact absurd (List.mem_append_left more hm) hne

end Token

namespace Item

mutual

/-- The lines of an item, those inside it included. -/
def lines : Item → List (List Token)
  | .line words stop _ _ => [words ++ [stop]]
  | .block _ _ body _ _ _ _ => linesIn body

def linesIn : List Item → List (List Token)
  | [] => []
  | item :: rest => item.lines ++ linesIn rest

end

/-- The lines of a text are those of its items. -/
theorem mem_linesIn {items : List Item} {line : List Token}
    (h : Token.IsLine (tokensOf items) line) : line ∈ linesIn items := by
  obtain ⟨before, words, stop, after, hsplit, rfl, hbefore, hwords, hstop⟩ := h
  have hbreak : stop.kind.isBreak := by simp [hstop, Kind.isBreak]
  induction items using Item.induction generalizing before after with
  | nil => simp [tokensOf] at hsplit
  | line own stop' whole stops rest ih =>
    have hends : stop'.kind.isBreak := by simp [stops, Kind.isBreak]
    rw [tokensOf, tokens, List.append_assoc, List.singleton_append] at hsplit
    rw [linesIn, lines]
    by_cases hn : before = []
    · subst hn
      obtain ⟨rfl, rfl, -⟩ := whole.append_cons_inj hwords hends hbreak hsplit
      exact List.mem_append_left _ (.head _)
    · obtain ⟨later, rfl, hrest, hlater⟩ := whole.exists_before hbefore hn hsplit
      exact List.mem_append_right _ (ih later after hrest hlater)
  | block head opening inner closing whole opens closes rest ihi ih =>
    have hopening : opening.kind.isBreak := by simp [opens, Kind.isBreak]
    rw [tokensOf_block, List.singleton_append, List.singleton_append] at hsplit
    rw [linesIn, lines]
    by_cases hn : before = []
    · subst hn
      obtain ⟨-, rfl, -⟩ := whole.append_cons_inj hwords hopening hbreak hsplit
      rw [opens] at hstop
      cases hstop
    · obtain ⟨later, rfl, hrest, hlater⟩ := whole.exists_before hbefore hn hsplit
      have hclosing : closing.kind.isBreak := by simp [closes, Kind.isBreak]
      have hne : stop ≠ closing := by
        rintro rfl
        rw [closes] at hstop
        cases hstop
      obtain ⟨more, rfl, hout⟩ | ⟨more, hin, hout⟩ := List.append_eq_append_iff.1 hrest
      · cases more with
        | nil =>
          obtain ⟨-, heq, -⟩ := hwords.append_cons_inj Token.unbroken_nil hbreak hclosing hout.symm
          exact absurd heq hne
        | cons first more =>
          rw [List.cons_append] at hout
          obtain ⟨rfl, htail⟩ := List.cons.inj hout
          exact List.mem_append_right _ (ih more after htail hlater.of_append)
      · obtain ⟨others, rfl, hend⟩ | ⟨others, rfl, hend⟩ := List.append_eq_append_iff.1 hout
        · cases others with
          | nil => exact absurd (List.cons.inj hend).1 hne
          | cons first others =>
            obtain ⟨rfl, rfl⟩ := List.cons.inj hend
            exact List.mem_append_left _ (ihi later others hin hlater)
        · have hothers : Token.Unbroken others := fun word hw =>
            hwords word (List.mem_append_right _ hw)
          obtain ⟨-, heq, -⟩ := hothers.append_cons_inj Token.unbroken_nil hbreak hclosing hend.symm
          exact absurd heq hne

end Item

end MuLang
